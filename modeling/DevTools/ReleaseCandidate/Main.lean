import Mathlib
import DevTools.Effects
import DevTools.ReleaseCandidate.Checkout
import DevTools.ReleaseCandidate.ReleaseVersion
import DevTools.ReleaseCandidate.CleanRepo

/-!
# `__main__` of `prepare_release_candidate.py`

The release script runs in stages: the checks (`ensure_checkout_is_clean()`, the release version
from `pom.xml` and its format, the documentation check), the version bump (three
`mvn versions:set` and `remove_version_snapshot`), the removal of an old local repository, then
the Maven install with the repository clean-up when `--deploy` is given, or the recipe printed
instead, then the upload when `--push-s3` is given, or the steps printed instead, and last the
mail. `main` is these stages in a row, over a `World` of the checkout's text files, the file system
the local repository is in, the lines printed and the command lines `run` passed to `os.system`.
The outside (git, Maven, `s3cmd`, `update_reference_docs`) is an `Outside`: its answers in one run,
and what each program does to the checkout and to the file system (`mvn versions:set` rewrites
the poms, the Maven install fills the local repository). The one command line the model spells
out is `clean_repo_command`, whose `find` it runs (`runCleanRepoCommand`).

`--skipDocCheck` is a `store_false` switch whose default is `False` too, so the documentation
check runs whatever the command line (`parseArgs_skipDocCheck`). The checks decide as the pure
function `checksResult` does (`checksResult_eq_ok_iff`, `releaseChecks_run_ok`,
`releaseChecks_run_error`), and when they fail the run raises with no command run, the file
system unchanged, and the checkout unchanged but for what `update_reference_docs` itself did when
it reported pending files (`main_checks_fail`). When they pass and every step succeeds, the run is
given whole by `main_run`: the commands it runs, the checkout and the file system it leaves, and
the lines it prints.
-/

namespace DevTools.ReleaseCandidate

open Fs

/-! ## The run -/

/-- The options given on the command line: the four switches and the `--gpg-key` value, if any. -/
structure Flags where
  deploy : Bool
  skipDocCheck : Bool
  push : Bool
  installOnly : Bool
  gpgKey : Option (List Char)

/-- The arguments `__main__` reads from `parser.parse_args()`. -/
structure Args where
  deploy : Bool
  skipDocCheck : Bool
  push : Bool
  installOnly : Bool
  gpgKey : List Char

/-- `parser.parse_args()`. `--deploy`, `--push-s3` and `--install_only` are `store_true`.
`--skipDocCheck` is `store_false`: given, it stores `False`, and `set_defaults(skip_doc_check=False)`
makes `False` its value when it is not given. `--gpg-key` defaults to `D88E42B4`. -/
def parseArgs (flags : Flags) : Args where
  deploy := flags.deploy
  skipDocCheck := if flags.skipDocCheck then false else false
  push := flags.push
  installOnly := flags.installOnly
  gpgKey := flags.gpgKey.getD "D88E42B4".toList

/-- What the outside answers and does in one run: the outputs of `git diff --shortstat`,
`git status` and `git log` for the short hash; what `update_reference_docs` returns (`none` when it
is falsy, else its `%s` text) and the checkout it leaves; the path `tempfile.mkstemp` gives; and
for each command line `os.system` runs, whether it exits with status 0, what it makes of the
checkout and what it makes of the file system. -/
structure Outside where
  diff : List Char
  status : List Char
  shortHash : List Char
  updateReferenceDocs : List Char → Store → Option (List Char) × Store
  tmp : List Char
  exitsOk : List Char → Bool
  edits : List Char → Store → Store
  writes : List Char → Fs → Fs

/-- What `__main__` reads and changes: the checkout's text files, the file system the local
repository is in, the working directory, the lines printed and the command lines `run` passed to
`os.system`. -/
structure World where
  store : Store
  fs : Fs
  cwd : List (List Char)
  printed : List (List Char)
  ran : List (List Char)

/-- The exceptions `__main__` lets through: those of the functions it calls, and the `OSError` of
`shutil.rmtree` or `os.rename`. -/
inductive MainExc where
  | exc (e : Exc)
  | osError

/-- `__main__`'s computations. -/
abbrev MainM := EStateM MainExc World

/-- `print(line)` for each line in turn. -/
def say (lines : List (List Char)) : MainM Unit :=
  modify fun w => { w with printed := w.printed ++ lines }

/-- Raises the exception of an `Except`. -/
def ofExcept {α : Type} (r : Except Exc α) : MainM α :=
  match r with
  | .ok a => pure a
  | .error e => throw (.exc e)

/-- A file operation on the checkout. -/
def onStore {α : Type} (x : FileM α) : MainM α := fun w =>
  match x.run w.store with
  | .ok a store => .ok a { w with store := store }
  | .error e store => .error (.exc e) { w with store := store }

/-- `run(command)`: `os.system(command)`, where `effect` gives the checkout and the tree the
command leaves and whether it exits with status 0, and `RuntimeError` when it does not. The
environment `run` sets with `os.putenv` is not modelled. -/
def run (command : List Char) (effect : World → Store × Fs × Bool) : MainM Unit := fun w =>
  let w' := { w with ran := w.ran ++ [command], store := (effect w).1, fs := (effect w).2.1 }
  if (effect w).2.2 then .ok () w'
  else .error (.exc (.runtimeError ("    FAILED: ".toList ++ command))) w'

/-- What a command line the model does not spell out does: what the outside says. -/
def outsideEffect (outside : Outside) (command : List Char) (w : World) : Store × Fs × Bool :=
  (outside.edits command w.store, outside.writes command w.fs, outside.exitsOk command)

/-- `run(command)` of a command line the model does not spell out. -/
def runOutside (outside : Outside) (command : List Char) : MainM Unit :=
  run command (outsideEffect outside command)

/-- `update_reference_docs(release_version)`, which the script imports from
`prepare_release_update_documentation`: it returns and leaves what the outside says. -/
def updateReferenceDocs (outside : Outside) (releaseVersion : List Char) :
    MainM (Option (List Char)) :=
  modifyGet fun w => ((outside.updateReferenceDocs releaseVersion w.store).1,
    { w with store := (outside.updateReferenceDocs releaseVersion w.store).2 })

/-- `os.path.exists(path)`. -/
def pathExists (path : List Char) : MainM Bool := fun w => .ok (w.fs.pathExists w.cwd path) w

/-- `shutil.rmtree(path)`: the directory `path` names goes, with everything under it; `OSError`
when it names a file or nothing. -/
def rmtree (path : List Char) : MainM Unit := fun w =>
  match w.fs.lookup w.cwd path with
  | some e => if w.fs.isDir e then .ok () { w with fs := w.fs.removeTree e } else .error .osError w
  | none => .error .osError w

/-- `rename_local_meta_files(path)`; an `os.rename` that fails raises `OSError` (the renames made
before it are not kept in the model). -/
def renameMetaFiles (path : List Char) : MainM Unit := fun w =>
  match renameLocalMetaFiles w.fs w.cwd path with
  | some fs => .ok () { w with fs := fs }
  | none => .error .osError w

/-! ## Texts -/

/-- The file `find_release_version` opens. -/
def pomXml : List Char := "pom.xml".toList

/-- `VERSION_FILE`. -/
def versionFile : List Char := "core/src/main/java/org/elasticsearch/Version.java".toList

/-- `'mvn versions:set -DnewVersion=%s -DgenerateBackupPoms=false' % version`, after `cdPart`: the
`cd` into `dev-tools` or `rest-api-spec`, or nothing. -/
def versionsSetCommand (cdPart version : List Char) : List Char :=
  cdPart ++ "mvn versions:set -DnewVersion=".toList ++ version ++ " -DgenerateBackupPoms=false".toList

/-- The three version bumps, in the order `__main__` runs them. -/
def versionsSetCommands (version : List Char) : List (List Char) :=
  [versionsSetCommand "cd dev-tools && ".toList version,
    versionsSetCommand "cd rest-api-spec && ".toList version, versionsSetCommand [] version]

/-- `localRepo`: `'/tmp/elasticsearch-%s-%s' % (release_version, shortHash)`. -/
def localRepoOf (version shortHash : List Char) : List Char :=
  "/tmp/elasticsearch-".toList ++ version ++ "-".toList ++ shortHash

/-- `localRepoElasticsearch`: `localRepo + '/org/elasticsearch'`. -/
def localRepoElasticsearchOf (localRepo : List Char) : List Char :=
  localRepo ++ "/org/elasticsearch".toList

/-- `install_command` for `mvn_target`, `gpg_key` and `localRepo`. -/
def installCommandOf (mvnTarget gpgKey localRepo : List Char) : List Char :=
  "mvn clean ".toList ++ mvnTarget ++ " -Prelease -Dskip.integ.tests=true -Dgpg.keyname=\"".toList ++
    gpgKey ++ ("\" -Dpackaging.rpm.rpmbuild=/usr/bin/rpmbuild -Drpm.sign=true " ++
    "-Dmaven.repo.local=").toList ++ localRepo ++
    " -Dno.commit.pattern=\"\\bno(n|)commit\\b\" -Dforbidden.test.signatures=\"\"".toList

/-- `mvn_target`: `install` with `--install_only`, else `deploy`. -/
def mvnTargetOf (installOnly : Bool) : List Char :=
  if installOnly then "install".toList else "deploy".toList

/-- `s3_sync_command`. -/
def s3SyncCommand (localRepoElasticsearch version shortHash : List Char) : List Char :=
  "s3cmd sync ".toList ++ localRepoElasticsearch ++
    " s3://download.elasticsearch.org/elasticsearch/staging/".toList ++ version ++ "-".toList ++
    shortHash ++ "/org/".toList

/-- `s3_bucket_sync_to`. -/
def s3BucketSyncTo (version shortHash : List Char) : List Char :=
  "download.elasticsearch.org/elasticsearch/staging/".toList ++ version ++ "-".toList ++ shortHash ++
    "/repos".toList

/-- `build_repo_command`. -/
def buildRepoCommand (majorMinorVersion : List Char) : List Char :=
  "dev-tools/build_repositories.sh ".toList ++ majorMinorVersion

/-- The line printed before the documentation check. -/
def preparingLine (version : List Char) : List Char :=
  "*** Preparing release version: [".toList ++ version ++ "]".toList

/-- The line printed when the documentation check starts. -/
def checkDocsLine : List Char := "*** Check for pending documentation changes".toList

/-- The message when `update_reference_docs` reports files, with its `%s` text. -/
def pendingMessage (version files : List Char) : List Char :=
  "pending coming[".toList ++ version ++ "] documentation changes found in ".toList ++ files

/-- The line printed before an old local repository is removed. -/
def clearingLine (path : List Char) : List Char := "clean local repository ".toList ++ path

/-- The line printed after the version bump. -/
def doneLine : List Char :=
  "*** Done removing snapshot version. DO NOT COMMIT THIS, WHEN CREATING A RELEASE CANDIDATE.".toList

/-- The lines printed without `--deploy`. -/
def recipeLines (installCommand localRepoElasticsearch : List Char) : List (List Char) :=
  [[], "*** To create a release candidate run: ".toList, "  ".toList ++ installCommand,
    "  1. Remove all _remote.repositories: ".toList ++ cleanRepoCommand localRepoElasticsearch,
    "  2. Rename all maven metadata files: ".toList ++
      renameMetadataFilesCommand localRepoElasticsearch]

/-- The `settings.xml` profile printed without `--push-s3`. -/
def profileText : List Char :=
  ("\n  <profiles>\n    <profile>\n      <id>release</id>\n      <properties>\n" ++
    "        <gpg.passphrase>YourPasswordGoesHere</gpg.passphrase>\n      </properties>\n" ++
    "    </profile>\n  </profiles>\n    ").toList

/-- The lines printed without `--push-s3`. -/
def pushLines (localRepoElasticsearch version shortHash majorMinorVersion : List Char) :
    List (List Char) :=
  [[], "*** To push a release candidate to s3 run: ".toList,
    "  1. Sync ".toList ++ localRepoElasticsearch ++ " into S3 bucket".toList,
    "    ".toList ++ s3SyncCommand localRepoElasticsearch version shortHash,
    "  2. Create repositories: ".toList,
    "    export S3_BUCKET_SYNC_TO=\"".toList ++ s3BucketSyncTo version shortHash ++ "\"".toList,
    "     ".toList ++ buildRepoCommand majorMinorVersion, [],
    ("NOTE: the above mvn command will promt you several times for the GPG passphrase of the key " ++
      "you specified you can alternatively pass it via -Dgpg.passphrase=yourPassPhrase").toList,
    (" since RPM signing doesn't support gpg-agents the recommended way to set the password is to " ++
      "add a release profile to your settings.xml:").toList,
    profileText,
    ("NOTE: Running s3cmd might require you to create a config file with your credentials, if the " ++
      "s3cmd does not support suppliying them via the command line!").toList]

/-- The line printed before the mail. -/
def mailHeader : List Char :=
  "*** Once the release is deployed and published send out the following mail to dev@elastic.co:".toList

/-- A piece of `MAIL_TEMPLATE`: text, or one of its `%(...)s` fields. -/
inductive MailPart where
  | text (s : List Char)
  | version
  | hash
  | majorMinorVersion

/-- The staging address of a release candidate, up to its `%(version)s-%(hash)s`. -/
def stagingUrl : List Char := "http://download.elasticsearch.org/elasticsearch/staging/".toList

/-- `MAIL_TEMPLATE`, cut at its fields. -/
def mailTemplate : List MailPart :=
  [.text "\nHi all\n\nThe new release candidate for ".toList, .version,
    .text (" based on this commit[1]  is now available, including the x-plugins, and RPM/deb " ++
      "repos:\n\n   - ZIP [2]\n   - tar.gz [3]\n   - RPM [4]\n   - deb [5]\n\nPlugins can be " ++
      "installed as follows,\n\n    bin/plugin -Des.plugins.staging=true install cloud-aws\n\n" ++
      "The same goes for the x-plugins:\n\n    bin/plugin -Des.plugins.staging=true install " ++
      "license\n    bin/plugin -Des.plugins.staging=true install shield\n    bin/plugin " ++
      "-Des.plugins.staging=true install watcher\n\nTo install the deb from an APT repo:\n\nAPT " ++
      "line sources.list line:\n\ndeb ").toList,
    .text stagingUrl, .version, .text ['-'], .hash, .text "/repos/elasticsearch/".toList,
    .majorMinorVersion,
    .text ("/debian/ stable main\n\nTo install the RPM, create a YUM file like:\n\n    " ++
      "/etc/yum.repos.d/elasticsearch.repo\n\ncontaining:\n\n[elasticsearch-2.0]\nname=" ++
      "Elasticsearch repository for packages\nbaseurl=").toList,
    .text stagingUrl, .version, .text ['-'], .hash, .text "/repos/elasticsearch/".toList,
    .majorMinorVersion,
    .text ("/centos\ngpgcheck=1\ngpgkey=http://packages.elastic.co/GPG-KEY-elasticsearch\n" ++
      "enabled=1\n\n\n[1] https://github.com/elastic/elasticsearch/commit/").toList, .hash,
    .text "\n[2] ".toList, .text stagingUrl, .version, .text ['-'], .hash,
    .text "/org/elasticsearch/distribution/zip/elasticsearch/".toList, .version,
    .text "/elasticsearch-".toList, .version, .text ".zip\n[3] ".toList,
    .text stagingUrl, .version, .text ['-'], .hash,
    .text "/org/elasticsearch/distribution/tar/elasticsearch/".toList, .version,
    .text "/elasticsearch-".toList, .version, .text ".tar.gz\n[4] ".toList,
    .text stagingUrl, .version, .text ['-'], .hash,
    .text "/org/elasticsearch/distribution/rpm/elasticsearch/".toList, .version,
    .text "/elasticsearch-".toList, .version, .text ".rpm\n[5] ".toList,
    .text stagingUrl, .version, .text ['-'], .hash,
    .text "/org/elasticsearch/distribution/deb/elasticsearch/".toList, .version,
    .text "/elasticsearch-".toList, .version, .text ".deb\n".toList]

/-- `MAIL_TEMPLATE % {'version': ..., 'hash': ..., 'major_minor_version': ...}`. -/
def mail (version hash majorMinorVersion : List Char) : List Char :=
  mailTemplate.flatMap fun
    | .text s => s
    | .version => version
    | .hash => hash
    | .majorMinorVersion => majorMinorVersion

/-! ## The stages -/

/-- The checks before the script changes anything: `ensure_checkout_is_clean()`,
`find_release_version()` on `pom.xml`, the format of the version, and the documentation check.
They return the release version and `major_minor_version`. -/
def releaseChecks (outside : Outside) (args : Args) : MainM (List Char × List Char) := do
  let (notes, clean) := ensureCheckoutIsClean outside.diff outside.status
  say notes
  ofExcept clean
  let pom ← onStore (readFile pomXml)
  let releaseVersion ← ofExcept (findReleaseVersion pom)
  let majorMinorVersion ← ofExcept (checkReleaseVersion releaseVersion)
  say [preparingLine releaseVersion]
  if !args.skipDocCheck then
    say [checkDocsLine]
    let pendingFiles ← updateReferenceDocs outside releaseVersion
    if let some files := pendingFiles then
      throw (.exc (.runtimeError (pendingMessage releaseVersion files)))
  return (releaseVersion, majorMinorVersion)

/-- The version bump: `mvn versions:set` in `dev-tools`, in `rest-api-spec` and at the root, then
`remove_version_snapshot(VERSION_FILE, release_version)`. -/
def bumpVersion (outside : Outside) (releaseVersion : List Char) : MainM Unit := do
  runOutside outside (versionsSetCommand "cd dev-tools && ".toList releaseVersion)
  runOutside outside (versionsSetCommand "cd rest-api-spec && ".toList releaseVersion)
  runOutside outside (versionsSetCommand [] releaseVersion)
  onStore (removeVersionSnapshot outside.tmp versionFile releaseVersion)
  say [doneLine]

/-- An old local repository is removed. -/
def clearLocalRepo (localRepoElasticsearch : List Char) : MainM Unit := do
  if ← pathExists localRepoElasticsearch then
    say [clearingLine localRepoElasticsearch]
    rmtree localRepoElasticsearch

/-- The `install_and_deploy` branch: the Maven install, `clean_repo_command` and
`rename_local_meta_files`; without `--deploy`, the recipe printed instead. A clean command the
model does not read (out of the modelled part of the shell, or with a path `find` reads as an
option) does what the outside says. -/
def installOrPrint (outside : Outside) (args : Args) (localRepo : List Char) : MainM Unit := do
  let localRepoElasticsearch := localRepoElasticsearchOf localRepo
  let installCommand := installCommandOf (mvnTargetOf args.installOnly) args.gpgKey localRepo
  if args.deploy then
    runOutside outside installCommand
    run (cleanRepoCommand localRepoElasticsearch) fun w =>
      match runCleanRepoCommand w.fs w.cwd localRepoElasticsearch with
      | some (fs, ok) => (w.store, fs, ok)
      | none => outsideEffect outside (cleanRepoCommand localRepoElasticsearch) w
    renameMetaFiles localRepoElasticsearch
  else
    say (recipeLines installCommand localRepoElasticsearch)

/-- The `push` branch: `s3_sync_command`, then `build_repo_command`; without `--push-s3`, the
steps printed instead. -/
def pushOrPrint (outside : Outside) (args : Args)
    (releaseVersion majorMinorVersion localRepo : List Char) : MainM Unit := do
  let localRepoElasticsearch := localRepoElasticsearchOf localRepo
  if args.push then
    runOutside outside (s3SyncCommand localRepoElasticsearch releaseVersion outside.shortHash)
    runOutside outside (buildRepoCommand majorMinorVersion)
  else
    say (pushLines localRepoElasticsearch releaseVersion outside.shortHash majorMinorVersion)

/-- `__main__` after `parse_args()`. -/
def main (outside : Outside) (args : Args) : MainM Unit := do
  let (releaseVersion, majorMinorVersion) ← releaseChecks outside args
  bumpVersion outside releaseVersion
  let localRepo := localRepoOf releaseVersion outside.shortHash
  clearLocalRepo (localRepoElasticsearchOf localRepo)
  installOrPrint outside args localRepo
  pushOrPrint outside args releaseVersion majorMinorVersion localRepo
  say [mailHeader, mail releaseVersion outside.shortHash majorMinorVersion]


/-! ## What the checks decide -/

/-- What the checks decide, from the outside's answers and the checkout's files: the release
version and `major_minor_version`, or the exception. The documentation check is always made: no
command line turns it off. -/
def checksResult (outside : Outside) (store : Store) : Except Exc (List Char × List Char) := do
  (ensureCheckoutIsClean outside.diff outside.status).2
  let pom ← match store pomXml with
    | some pom => .ok pom
    | none => .error (.fileNotFound pomXml)
  let releaseVersion ← findReleaseVersion pom
  let majorMinorVersion ← checkReleaseVersion releaseVersion
  match (outside.updateReferenceDocs releaseVersion store).1 with
  | some files => .error (.runtimeError (pendingMessage releaseVersion files))
  | none => .ok (releaseVersion, majorMinorVersion)

/-- `--skipDocCheck` does not skip the documentation check. -/
@[simp] theorem parseArgs_skipDocCheck (flags : Flags) : (parseArgs flags).skipDocCheck = false := by
  simp [parseArgs]

/-- The checks pass exactly on a clean checkout, with no local change, no untracked file and a
branch neither behind nor ahead, whose `pom.xml` has a snapshot version of the right format, for
which `update_reference_docs` reports nothing. -/
theorem checksResult_eq_ok_iff {outside : Outside} {store : Store} {v mm : List Char} :
    checksResult outside store = .ok (v, mm) ↔
      (outside.diff = [] ∧ ¬ untrackedFiles <:+: outside.status ∧
        ¬ isBehind <:+: outside.status ∧ ¬ isAhead <:+: outside.status) ∧
      ∃ pom, store pomXml = some pom ∧ findReleaseVersion pom = .ok v ∧
        checkReleaseVersion v = .ok mm ∧ (outside.updateReferenceDocs v store).1 = none := by
  rw [← ensureCheckoutIsClean_ok_iff]
  constructor
  · intro h
    unfold checksResult at h
    rcases hc : (ensureCheckoutIsClean outside.diff outside.status).2 with e | ⟨⟩ <;>
      simp only [hc, bind, Except.bind] at h
    · cases h
    rcases hp : store pomXml with _ | pom <;> simp only [hp] at h
    · cases h
    rcases hv : findReleaseVersion pom with e | v' <;> simp only [hv] at h
    · cases h
    rcases hm : checkReleaseVersion v' with e | mm' <;> simp only [hm] at h
    · cases h
    rcases hd : (outside.updateReferenceDocs v' store).1 with _ | files <;> simp only [hd] at h
    · obtain ⟨rfl, rfl⟩ := Prod.mk.inj (Except.ok.inj h)
      exact ⟨rfl, pom, rfl, hv, hm, hd⟩
    · cases h
  · rintro ⟨hc, pom, hp, hv, hm, hd⟩
    simp [checksResult, hc, hp, hv, hm, hd, bind, Except.bind]

/-! ## One stage at a time -/

/-- The checkout after the command lines, in order, as the outside says. -/
def editedBy (outside : Outside) (commands : List (List Char)) (store : Store) : Store :=
  commands.foldl (fun store command => outside.edits command store) store

/-- The file system after the command lines, in order, as the outside says. -/
def writtenBy (outside : Outside) (commands : List (List Char)) (fs : Fs) : Fs :=
  commands.foldl (fun fs command => outside.writes command fs) fs

/-- The command lines the upload runs with `--push-s3`. -/
def pushCommands (args : Args) (localRepo v shortHash mm : List Char) : List (List Char) :=
  if args.push then
    [s3SyncCommand (localRepoElasticsearchOf localRepo) v shortHash, buildRepoCommand mm]
  else []

section Stages

variable {outside : Outside} {w : World}

theorem run_bind_eq {α β : Type} (x : MainM α) (f : α → MainM β) (w : World) :
    (x >>= f).run w = match x.run w with
      | .ok a w' => (f a).run w'
      | .error e w' => .error e w' := by
  cases h : x.run w with
  | ok a w' => exact run_bind_of_ok h
  | error e w' => exact run_bind_of_error h

@[simp] theorem run_say (lines : List (List Char)) :
    (say lines).run w = .ok () { w with printed := w.printed ++ lines } := rfl

@[simp] theorem run_ofExcept {α : Type} (r : Except Exc α) :
    (ofExcept r).run w = match r with
      | .ok a => .ok a w
      | .error e => .error (.exc e) w := by
  cases r <;> rfl

@[simp] theorem run_onStore {α : Type} (x : FileM α) :
    (onStore x).run w = match x.run w.store with
      | .ok a store => .ok a { w with store := store }
      | .error e store => .error (.exc e) { w with store := store } := rfl

@[simp] theorem run_readFile (store : Store) (path : List Char) :
    (readFile path).run store = match store path with
      | some content => .ok content store
      | none => .error (.fileNotFound path) store := by
  cases h : store path <;>
    simp [readFile, h, EStateM.run, bind, EStateM.bind, get, getThe, MonadStateOf.get,
      EStateM.get, pure, EStateM.pure, throw, throwThe, MonadExceptOf.throw, EStateM.throw]

@[simp] theorem run_run (command : List Char) (effect : World → Store × Fs × Bool) :
    (run command effect).run w = if (effect w).2.2 then
      .ok () { w with ran := w.ran ++ [command], store := (effect w).1, fs := (effect w).2.1 }
    else .error (.exc (.runtimeError ("    FAILED: ".toList ++ command)))
      { w with ran := w.ran ++ [command], store := (effect w).1, fs := (effect w).2.1 } := rfl

@[simp] theorem run_updateReferenceDocs (v : List Char) :
    (updateReferenceDocs outside v).run w = .ok (outside.updateReferenceDocs v w.store).1
      { w with store := (outside.updateReferenceDocs v w.store).2 } := rfl

@[simp] theorem run_pathExists (p : List Char) :
    (pathExists p).run w = .ok (w.fs.pathExists w.cwd p) w := rfl

@[simp] theorem run_rmtree (p : List Char) :
    (rmtree p).run w = match w.fs.lookup w.cwd p with
      | some e => if w.fs.isDir e then .ok () { w with fs := w.fs.removeTree e } else .error .osError w
      | none => .error .osError w := rfl

@[simp] theorem run_renameMetaFiles (p : List Char) :
    (renameMetaFiles p).run w = match renameLocalMetaFiles w.fs w.cwd p with
      | some fs => .ok () { w with fs := fs }
      | none => .error .osError w := rfl

theorem run_onStore_ok {α : Type} {x : FileM α} {a : α} {s store : Store} (hs : w.store = s)
    (h : x.run s = .ok a store) : (onStore x).run w = .ok a { w with store := store } := by
  simp [hs, h]

/-- `run` of a command line the model does not spell out, which exits with 0. -/
theorem runOutside_run {c : List Char} (hexit : outside.exitsOk c = true) :
    (runOutside outside c).run w = .ok () { w with
      ran := w.ran ++ [c]
      store := outside.edits c w.store
      fs := outside.writes c w.fs } := by
  simp [runOutside, outsideEffect, hexit]

/-- When the checks pass, they print two lines and leave the checkout as `update_reference_docs`
does. -/
theorem releaseChecks_run_ok (flags : Flags) {v mm : List Char}
    (h : checksResult outside w.store = .ok (v, mm)) :
    (releaseChecks outside (parseArgs flags)).run w =
      .ok (v, mm) { w with
        store := (outside.updateReferenceDocs v w.store).2
        printed := w.printed ++ [preparingLine v, checkDocsLine] } := by
  obtain ⟨hc, pom, hpom, hv, hmm, hpend⟩ := checksResult_eq_ok_iff.1 h
  have hpair : ensureCheckoutIsClean outside.diff outside.status = ([], .ok ()) := by
    rw [← ensureCheckoutIsClean_ok_iff] at hc
    -- a clean checkout prints no note
    refine Prod.ext ?_ hc
    by_contra hne
    have := (ensureCheckoutIsClean_prints hne).2
    rw [hc] at this
    cases this
  simp [releaseChecks, hpair, run_bind_eq, hpom, hv, hmm, hpend]

/-- When the checks fail, they raise what `checksResult` says, print, and leave the checkout as
it was, or as `update_reference_docs` left it when it reported pending files. -/
theorem releaseChecks_run_error (flags : Flags) {e : Exc}
    (h : checksResult outside w.store = .error e) :
    ∃ lines store, (releaseChecks outside (parseArgs flags)).run w =
      .error (.exc e) { w with printed := w.printed ++ lines, store := store } ∧
      (store = w.store ∨ ∃ v files, e = .runtimeError (pendingMessage v files) ∧
        outside.updateReferenceDocs v w.store = (some files, store)) := by
  simp only [releaseChecks, run_bind_eq, run_say, run_ofExcept, run_onStore, run_readFile,
    run_updateReferenceDocs, parseArgs_skipDocCheck, Bool.not_false, if_true]
  unfold checksResult at h
  rcases hpair : ensureCheckoutIsClean outside.diff outside.status with ⟨notes, e' | ⟨⟩⟩ <;>
    simp only [hpair, bind, Except.bind] at h ⊢
  · cases h
    exact ⟨notes, w.store, rfl, .inl rfl⟩
  rcases hp : w.store pomXml with _ | pom <;> simp only [hp] at h ⊢
  · cases h
    exact ⟨notes, w.store, rfl, .inl rfl⟩
  rcases hv : findReleaseVersion pom with e' | v <;> simp only [hv] at h ⊢
  · cases h
    exact ⟨notes, w.store, rfl, .inl rfl⟩
  rcases hm : checkReleaseVersion v with e' | mm <;> simp only [hm] at h ⊢
  · cases h
    exact ⟨notes, w.store, rfl, .inl rfl⟩
  rcases hd : outside.updateReferenceDocs v w.store with ⟨_ | files, store⟩ <;> simp only [hd] at h ⊢
  · cases h
  · cases h
    refine ⟨notes ++ [preparingLine v, checkDocsLine], store, ?_, .inr ⟨v, files, rfl, hd⟩⟩
    simp only [List.append_assoc]
    rfl

theorem bumpVersion_run {v : List Char} {store : Store} (hexit : ∀ c, outside.exitsOk c = true)
    (hsnap : (removeVersionSnapshot outside.tmp versionFile v).run
      (editedBy outside (versionsSetCommands v) w.store) = .ok () store) :
    (bumpVersion outside v).run w = .ok () { w with
      ran := w.ran ++ versionsSetCommands v
      store := store
      fs := writtenBy outside (versionsSetCommands v) w.fs
      printed := w.printed ++ [doneLine] } := by
  unfold bumpVersion
  refine (run_bind_of_ok (runOutside_run (hexit _))).trans ?_
  refine (run_bind_of_ok (runOutside_run (hexit _))).trans ?_
  refine (run_bind_of_ok (runOutside_run (hexit _))).trans ?_
  refine (run_bind_of_ok (run_onStore_ok rfl hsnap)).trans ?_
  simp [versionsSetCommands, writtenBy]

/-- The file system once an old local repository at `path` is removed. -/
def cleared (fs : Fs) (cwd : List (List Char)) (path : List Char) : Fs :=
  match fs.lookup cwd path with
  | some e => fs.removeTree e
  | none => fs

theorem clearLocalRepo_run {p : List Char}
    (h : w.fs.pathExists w.cwd p → w.fs.pathIsDir w.cwd p) :
    (clearLocalRepo p).run w = .ok () { w with
      fs := cleared w.fs w.cwd p
      printed := w.printed ++ if w.fs.pathExists w.cwd p then [clearingLine p] else [] } := by
  rcases hl : w.fs.lookup w.cwd p with _ | e
  · have : w.fs.pathExists w.cwd p = false := by simp [Fs.pathExists, hl]
    simp [clearLocalRepo, run_bind_eq, this, cleared, hl]
  · have he : w.fs.pathExists w.cwd p = true := by simp [Fs.pathExists, hl]
    have hd : w.fs.isDir e = true := by simpa [Fs.pathIsDir, hl] using h he
    simp [clearLocalRepo, run_bind_eq, he, cleared, hl, hd]

/-- What the deploy branch needs of the tree the Maven install leaves: the repository's path is
one plain word that names the directory `D`, and the metadata files under it form a batch. -/
structure Deployable (fs : Fs) (cwd : List (List Char)) (path : List Char) (D : List (List Char)) :
    Prop where
  wf : fs.WF
  cwdDir : fs.isDir cwd
  word : IsPlainWord path
  lookup : fs.lookup cwd path = some D
  dir : fs.isDir D
  notDir : ∀ e ∈ metaSources fs D, (metaTarget e, Kind.dir) ∉ fs.entries
  inj : ∀ e ∈ metaSources fs D, ∀ e' ∈ metaSources fs D, metaTarget e = metaTarget e' → e = e'

/-- The file system the install branch leaves: with `--deploy`, what the Maven install writes,
with the `_remote.repositories` files under `D` removed and the metadata files renamed. -/
def installedFs (outside : Outside) (args : Args) (localRepo : List Char) (D : List (List Char))
    (fs : Fs) : Fs :=
  if args.deploy then
    (cleaned (outside.writes (installCommandOf (mvnTargetOf args.installOnly) args.gpgKey localRepo)
      fs) D).renameAll metaTarget (metaSources (outside.writes (installCommandOf
        (mvnTargetOf args.installOnly) args.gpgKey localRepo) fs) D)
  else fs

/-- The checkout the install branch leaves: with `--deploy`, what the Maven install makes of it. -/
def installedStore (outside : Outside) (args : Args) (localRepo : List Char) (store : Store) :
    Store :=
  if args.deploy then
    outside.edits (installCommandOf (mvnTargetOf args.installOnly) args.gpgKey localRepo) store
  else store

theorem installOrPrint_run {args : Args} {localRepo : List Char} {D : List (List Char)}
    (hexit : ∀ c, outside.exitsOk c = true)
    (hdash : ¬ IsOptionWord (localRepoElasticsearchOf localRepo))
    (hdep : args.deploy = true →
      Deployable (outside.writes (installCommandOf (mvnTargetOf args.installOnly) args.gpgKey
        localRepo) w.fs) w.cwd (localRepoElasticsearchOf localRepo) D) :
    (installOrPrint outside args localRepo).run w = .ok () { w with
      store := installedStore outside args localRepo w.store
      fs := installedFs outside args localRepo D w.fs
      printed := w.printed ++ if args.deploy then [] else
        recipeLines (installCommandOf (mvnTargetOf args.installOnly) args.gpgKey localRepo)
          (localRepoElasticsearchOf localRepo)
      ran := w.ran ++ if args.deploy then
        [installCommandOf (mvnTargetOf args.installOnly) args.gpgKey localRepo,
          cleanRepoCommand (localRepoElasticsearchOf localRepo)] else [] } := by
  cases hd : args.deploy
  · simp [installOrPrint, hd, installedStore, installedFs]
  · obtain ⟨h, hcwd, hword, hD, hDdir, hnotdir, hinj⟩ := hdep hd
    simp only [installedStore, installedFs, hd, if_true]
    rw [← removeMatched_remoteRepositories]
    simp [installOrPrint, hd, run_bind_eq, runOutside_run (hexit _),
      runCleanRepoCommand_eq h hcwd hword hdash hD hDdir,
      renameLocalMetaFiles_removeMatched h hcwd hD hDdir hnotdir hinj]

theorem pushOrPrint_run {args : Args} {v mm localRepo : List Char}
    (hexit : ∀ c, outside.exitsOk c = true) :
    (pushOrPrint outside args v mm localRepo).run w = .ok () { w with
      store := editedBy outside (pushCommands args localRepo v outside.shortHash mm) w.store
      fs := writtenBy outside (pushCommands args localRepo v outside.shortHash mm) w.fs
      printed := w.printed ++ if args.push then [] else
        pushLines (localRepoElasticsearchOf localRepo) v outside.shortHash mm
      ran := w.ran ++ pushCommands args localRepo v outside.shortHash mm } := by
  cases hp : args.push <;>
    simp [pushOrPrint, pushCommands, hp, run_bind_eq, runOutside_run (hexit _), editedBy,
      writtenBy]

end Stages

/-! ## Whole runs -/

/-- When the checks fail, the run raises their exception before any command runs, whatever the
command line: the file system is unchanged, and the checkout too, but for what
`update_reference_docs` did when it reported pending files. -/
theorem main_checks_fail (flags : Flags) {outside : Outside} {w₀ : World} {e : Exc}
    (h : checksResult outside w₀.store = .error e) :
    ∃ w, (main outside (parseArgs flags)).run w₀ = .error (.exc e) w ∧
      w.ran = w₀.ran ∧ w.fs = w₀.fs ∧
      (w.store = w₀.store ∨ ∃ v files, e = .runtimeError (pendingMessage v files) ∧
        outside.updateReferenceDocs v w₀.store = (some files, w.store)) := by
  obtain ⟨lines, store, hr, hstore⟩ := releaseChecks_run_error flags h
  exact ⟨_, run_bind_of_error hr, rfl, rfl, hstore⟩

/-- A `pom.xml` with a snapshot version. -/
def demoPom : List Char :=
  "<project>\n  <version>2.0.0-SNAPSHOT</version>\n</project>\n".toList

/-- A `Version.java` line of the snapshot version. -/
def demoVersionJava : List Char :=
  "    public static final Version V_2_0_0 = new Version(V_2_0_0_ID, true, LUCENE_5_2_1);\n".toList

/-- A checkout with `pom.xml` and `Version.java`, and no local repository yet. -/
def demoWorld : World where
  store := fun p => if p = pomXml then some demoPom else if p = versionFile then some demoVersionJava
    else none
  fs := ⟨[(["tmp".toList], .dir)]⟩
  cwd := []
  printed := []
  ran := []

/-- The text of a pending-changes file `update_reference_docs` adds to the checkout. -/
def pendingNote : List Char := "coming[2.0.0]\n".toList

/-- Answers where `update_reference_docs` reports a pending file, and leaves a note of it in the
checkout. -/
def pendingOutside : Outside where
  diff := []
  status := "On branch 2.0\nnothing to commit, working directory clean\n".toList
  shortHash := "abc1234".toList
  updateReferenceDocs := fun _ store => (some "['docs/reference/index.asciidoc']".toList,
    fun p => if p = "docs/reference/index.asciidoc".toList then some pendingNote else store p)
  tmp := "/tmp/tmpx".toList
  exitsOk := fun _ => true
  edits := fun _ store => store
  writes := fun _ fs => fs

theorem main_checks_fail_pendingDocs :
    ∃ w, (main pendingOutside (parseArgs ⟨false, true, false, false, none⟩)).run demoWorld =
      .error (.exc (.runtimeError (pendingMessage "2.0.0".toList
        "['docs/reference/index.asciidoc']".toList))) w ∧
      w.ran = demoWorld.ran ∧ w.fs = demoWorld.fs ∧
      (w.store = demoWorld.store ∨ ∃ v files, .runtimeError (pendingMessage "2.0.0".toList
        "['docs/reference/index.asciidoc']".toList) = Exc.runtimeError (pendingMessage v files) ∧
        pendingOutside.updateReferenceDocs v demoWorld.store = (some files, w.store)) :=
  main_checks_fail _ rfl

/-- The command lines a run that gets through runs, in order. -/
def plannedCommands (outside : Outside) (args : Args) (v mm : List Char) : List (List Char) :=
  versionsSetCommands v ++
    (if args.deploy then
      [installCommandOf (mvnTargetOf args.installOnly) args.gpgKey (localRepoOf v outside.shortHash),
        cleanRepoCommand (localRepoElasticsearchOf (localRepoOf v outside.shortHash))] else []) ++
    pushCommands args (localRepoOf v outside.shortHash) v outside.shortHash mm

/-- The lines a run that gets through prints, in order; `clearing` is whether an old local
repository was there. -/
def plannedLines (outside : Outside) (args : Args) (clearing : Bool) (v mm : List Char) :
    List (List Char) :=
  [preparingLine v, checkDocsLine, doneLine] ++
    (if clearing then [clearingLine (localRepoElasticsearchOf (localRepoOf v outside.shortHash))]
      else []) ++
    (if args.deploy then [] else
      recipeLines (installCommandOf (mvnTargetOf args.installOnly) args.gpgKey
        (localRepoOf v outside.shortHash)) (localRepoElasticsearchOf (localRepoOf v outside.shortHash))) ++
    (if args.push then [] else
      pushLines (localRepoElasticsearchOf (localRepoOf v outside.shortHash)) v outside.shortHash mm) ++
    [mailHeader, mail v outside.shortHash mm]

/-- A run whose checks pass and whose steps all succeed: it runs the version bumps, then the
install and `clean_repo_command` with `--deploy`, then the upload with `--push-s3`. It leaves the
checkout as `update_reference_docs`, the three `mvn versions:set`, `remove_version_snapshot`, the
install and the upload make it, in that order; and the file system as the version bumps write it,
with the old local repository removed, then with `--deploy` as the install writes it with the
`_remote.repositories` files removed and the metadata files renamed, then as the upload writes
it. It prints the recipe and the upload steps it did not run, and the mail. -/
theorem main_run (flags : Flags) {outside : Outside} {w₀ : World} {v mm : List Char}
    {store : Store} {D : List (List Char)}
    (hchk : checksResult outside w₀.store = .ok (v, mm))
    (hsnap : (removeVersionSnapshot outside.tmp versionFile v).run
      (editedBy outside (versionsSetCommands v) (outside.updateReferenceDocs v w₀.store).2) =
        .ok () store)
    (hexit : ∀ c, outside.exitsOk c = true)
    (hold : (writtenBy outside (versionsSetCommands v) w₀.fs).pathExists w₀.cwd
        (localRepoElasticsearchOf (localRepoOf v outside.shortHash)) →
      (writtenBy outside (versionsSetCommands v) w₀.fs).pathIsDir w₀.cwd
        (localRepoElasticsearchOf (localRepoOf v outside.shortHash)))
    (hdep : flags.deploy = true → Deployable (outside.writes (installCommandOf
      (mvnTargetOf flags.installOnly) (flags.gpgKey.getD "D88E42B4".toList)
      (localRepoOf v outside.shortHash)) (cleared (writtenBy outside (versionsSetCommands v) w₀.fs)
        w₀.cwd (localRepoElasticsearchOf (localRepoOf v outside.shortHash)))) w₀.cwd
      (localRepoElasticsearchOf (localRepoOf v outside.shortHash)) D) :
    (main outside (parseArgs flags)).run w₀ = .ok () { w₀ with
      store := editedBy outside
        (pushCommands (parseArgs flags) (localRepoOf v outside.shortHash) v outside.shortHash mm)
        (installedStore outside (parseArgs flags) (localRepoOf v outside.shortHash) store)
      fs := writtenBy outside
        (pushCommands (parseArgs flags) (localRepoOf v outside.shortHash) v outside.shortHash mm)
        (installedFs outside (parseArgs flags) (localRepoOf v outside.shortHash) D
          (cleared (writtenBy outside (versionsSetCommands v) w₀.fs) w₀.cwd
            (localRepoElasticsearchOf (localRepoOf v outside.shortHash))))
      printed := w₀.printed ++ plannedLines outside (parseArgs flags)
        ((writtenBy outside (versionsSetCommands v) w₀.fs).pathExists w₀.cwd
          (localRepoElasticsearchOf (localRepoOf v outside.shortHash))) v mm
      ran := w₀.ran ++ plannedCommands outside (parseArgs flags) v mm } := by
  unfold main
  refine (run_bind_of_ok (releaseChecks_run_ok flags hchk)).trans ?_
  dsimp only
  refine (run_bind_of_ok (by exact bumpVersion_run hexit hsnap)).trans ?_
  refine (run_bind_of_ok (by exact clearLocalRepo_run hold)).trans ?_
  refine (run_bind_of_ok (by exact installOrPrint_run hexit (by simp [IsOptionWord,
    localRepoElasticsearchOf, localRepoOf]) hdep)).trans ?_
  refine (run_bind_of_ok (by exact pushOrPrint_run hexit)).trans ?_
  simp [plannedLines, plannedCommands, parseArgs]

/-- The local repository a Maven install leaves for `2.0.0` at `abc1234`: one
`_remote.repositories` file and one metadata file. -/
def installedRepo : Fs :=
  ⟨[(["tmp".toList], .dir), (["tmp".toList, "elasticsearch-2.0.0-abc1234".toList], .dir),
    (["tmp".toList, "elasticsearch-2.0.0-abc1234".toList, "org".toList], .dir),
    (["tmp".toList, "elasticsearch-2.0.0-abc1234".toList, "org".toList, "elasticsearch".toList],
      .dir),
    (["tmp".toList, "elasticsearch-2.0.0-abc1234".toList, "org".toList, "elasticsearch".toList,
      "_remote.repositories".toList], .file),
    (["tmp".toList, "elasticsearch-2.0.0-abc1234".toList, "org".toList, "elasticsearch".toList,
      "maven-metadata-local.xml".toList], .file)]⟩

/-- The `pom.xml` the root `mvn versions:set` leaves. -/
def releasePom : List Char := "<project>\n  <version>2.0.0</version>\n</project>\n".toList

/-- Answers for a run that gets through: the root `mvn versions:set` sets the release version in
`pom.xml`, and `mvn clean deploy` writes the local repository. -/
def releaseOutside : Outside where
  diff := []
  status := "On branch 2.0\nnothing to commit, working directory clean\n".toList
  shortHash := "abc1234".toList
  updateReferenceDocs := fun _ store => (none, store)
  tmp := "/tmp/tmpx".toList
  exitsOk := fun _ => true
  edits := fun c store => if "mvn versions:set".toList <+: c then
    fun p => if p = pomXml then some releasePom else store p else store
  writes := fun c fs => if "mvn clean".toList <+: c then installedRepo else fs

theorem main_run_deploy_push :
    ∃ w, (main releaseOutside (parseArgs ⟨true, false, true, false, none⟩)).run demoWorld =
      .ok () w :=
  ⟨_, main_run _ rfl rfl (fun _ => rfl) (by decide)
    (fun _ => ⟨by decide, rfl, by decide, rfl, by decide, by decide, by decide⟩)⟩

end DevTools.ReleaseCandidate
