import Mathlib
import DevTools.Bwc.World
import DevTools.Bwc.ParseVersion

/-!
# `create_bwc_indexes.py`

The functions of the script, in the order of the source, over the world of `Bwc.World`:
starting a node after probing its ports, the plugin commands, waiting for the node, populating
the security index, compressing the data directory into `x-pack-<version>.zip`, `parse_config`
with its `--all` branch, and `main`, whose loop runs each version's work in a `try` block whose
`finally` shuts the node down and removes the temporary directory.

The command lines the script hands to the shell are named (`rmShieldCommand`,
`esusersCommand`, `zipCommand`), as are the archive's name and its inverse (`archiveName`,
`versionOfArchive`), so that later files can state what they are.
-/

namespace DevTools.Bwc

/-- `DEFAULT_TRANSPORT_TCP_PORT`. -/
def transportPort : Nat := 9300

/-- `DEFAULT_HTTP_TCP_PORT`. -/
def httpPort : Nat := 9200

/-- `sock.connect_ex(('localhost', port)) == 0`: whether something listens on the port. -/
def portInUse (_port : Nat) : M Bool := return !(← attempt)

/-- The node's argument vector `cmd` in `start_node`, with `cluster_name = 'bwc_index_' +
version`. -/
def nodeArgs (version releaseDir dataDir : List Char) : List (List Char) :=
  [join releaseDir "bin/elasticsearch".toList,
    "-Des.path.data=".toList ++ dataDir,
    "-Des.path.logs=logs".toList,
    "-Des.cluster.name=".toList ++ ("bwc_index_".toList ++ version),
    "-Des.network.host=localhost".toList,
    "-Des.transport.tcp.port=".toList ++ (Nat.repr transportPort).toList,
    "-Des.http.port=".toList ++ (Nat.repr httpPort).toList]

/-- `start_node(version, release_dir, data_dir)`. -/
def startNode (version releaseDir dataDir : List Char) : M Nat := do
  check (!(← portInUse httpPort))
    (.exception ("Elasticsearch instance already running on port ".toList ++
      (Nat.repr httpPort).toList))
  check (!(← portInUse transportPort))
    (.exception ("Elasticsearch instance already running on port ".toList ++
      (Nat.repr transportPort).toList))
  popen (nodeArgs version releaseDir dataDir)

/-- The argument vector of `run_plugin`: `[os.path.join(release_dir, 'bin/plugin'), plugin_cmd] +
args`. -/
def pluginArgs (releaseDir pluginCmd : List Char) (args : List (List Char)) : List (List Char) :=
  [join releaseDir "bin/plugin".toList, pluginCmd] ++ args

/-- `run_plugin(version, release_dir, plugin_cmd, args)`. -/
def runPlugin (_version releaseDir pluginCmd : List Char) (args : List (List Char)) : M Unit :=
  checkCall (pluginArgs releaseDir pluginCmd args)

/-- `install_plugin(version, release_dir, plugin_name)`. -/
def installPlugin (version releaseDir pluginName : List Char) : M Unit :=
  runPlugin version releaseDir "install".toList [pluginName]

/-- `remove_plugin(version, release_dir, plugin_name)`. -/
def removePlugin (version releaseDir pluginName : List Char) : M Unit :=
  runPlugin version releaseDir "remove".toList [pluginName]

/-- The loop of `create_client`: an attempt that raises is logged and retried, up to `attempts`
times; then `assert False, '...' % timeout` raises a `NameError`, since `timeout` is not
defined. -/
def waitForNode : Nat → M Unit
  | 0 => throw (.nameError "timeout".toList)
  | n + 1 => do if ← attempt then pure () else waitForNode n

/-- `create_client()`. -/
def createClient : M Unit := waitForNode 30

/-- The message of both failed `PUT` requests of `generate_security_index`. -/
def putFailedMessage : List Char :=
  "PUT http://localhost:9200/_shield/role/bwc_test_role did not succeed!".toList

/-- `client.index(index=name, ...)`. -/
def indexDoc (name : List Char) : M Unit := do
  check (← attempt) (.libraryError (.index name))

/-- `generate_security_index(client, version)`; the health response is left out of the message of
its last assertion. -/
def generateSecurityIndex (_version : List Char) : M Unit := do
  check (← attempt) (.exception putFailedMessage)
  check (← attempt) (.exception putFailedMessage)
  indexDoc "index1".toList
  indexDoc "index1".toList
  indexDoc "index2".toList
  indexDoc "index2".toList
  indexDoc "index3".toList
  check (← attempt) (.libraryError .health)
  check (← attempt) (.assertionError "cluster health timed out ".toList)

/-- The archive `compress_index` writes for a version: `'x-pack-%s.zip' % version`. -/
def archiveName (version : List Char) : List Char := "x-pack-".toList ++ version ++ ".zip".toList

/-- The command line of `compress`: `'zip -r %s %s' % (zipfile, directory)`. -/
def zipCommand (zipfile directory : List Char) : List Char :=
  "zip -r ".toList ++ zipfile ++ " ".toList ++ directory

/-- The archive path `compress` computes: `os.path.join(os.path.abspath(output_dir), zipfile)`. -/
def zipfilePath (cwd outputDir zipfile : List Char) : List Char :=
  join (abspath cwd outputDir) zipfile

/-- `compress(tmp_dir, output_dir, zipfile, directory)`. -/
def compress (tmpDir outputDir zipfile directory : List Char) : M Unit := do
  let zipfile := zipfilePath (← getcwd) outputDir zipfile
  let present ← pathExists zipfile
  (if present then removeFile zipfile else pure ())
  let olddir ← getcwd
  chdir tmpDir
  checkCallShell (zipCommand zipfile directory)
  chdir olddir

/-- `compress_index(version, tmp_dir, output_dir)`. -/
def compressIndex (version tmpDir outputDir : List Char) : M Unit :=
  compress tmpDir outputDir (archiveName version) "data".toList

/-- The arguments `parse_config` reads; `--all` is not read, since the script tests whether the
version list is empty. -/
structure Config where
  versions : List (List Char)
  releasesDir : List Char
  outputDir : List Char
  deriving DecidableEq, Repr

/-- The default of `--releases-dir`. -/
def defaultReleasesDir : List Char := "backwards".toList

/-- The default of `--output-dir`. -/
def defaultOutputDir : List Char := "elasticsearch/x-pack/src/test/resources/indices/bwc/".toList

/-- The version `--all` reads off an archive path:
`os.path.basename(bwc_index)[len('x-pack-'):-len('.zip')]`. -/
def versionOfArchive (path : List Char) : List Char :=
  ((basename path).take ((basename path).length - 4)).drop 7

/-- The archives `--all` finds: `glob.glob(os.path.join(output_dir, 'x-pack-*.zip'))`. -/
def archivesIn (fs : Fs) (cwd : List (List Char)) (outputDir : List Char) : List (List Char) :=
  glob fs cwd (join outputDir "x-pack-*.zip".toList)

/-- `parse_config()`, from the arguments `argparse` returned. -/
def parseConfig (cfg : Config) : M Config := do
  let w ← get
  if !w.fs.pathExists w.cwd cfg.outputDir then
    throw (.parserError ("Output directory does not exist: ".toList ++ cfg.outputDir))
  else if cfg.versions = [] then
    return { cfg with versions := (archivesIn w.fs w.cwd cfg.outputDir).map versionOfArchive }
  else return cfg

/-- `shutdown_node(node)`. -/
def shutdownNode (node : Nat) : M Unit := do
  terminate node
  wait node

/-- `run(command)`. -/
def run (command : List Char) : M Unit := do
  check ((← system command) = 0) (.runtimeError ("    FAILED: ".toList ++ command))

/-- The command that removes the old shield configuration: `'rm -rf %s' % join(release_dir,
'config/shield')`. -/
def rmShieldCommand (releaseDir : List Char) : List Char :=
  "rm -rf ".toList ++ join releaseDir "config/shield".toList

/-- The command that creates the admin user, with the two spaces of the source. -/
def esusersCommand (releaseDir : List Char) : List Char :=
  join releaseDir "bin/shield/esusers".toList ++ "  useradd es_admin -r admin -p 0123456789".toList

/-- `os.path.join(cfg.releases_dir, 'elasticsearch-%s' % version)`. -/
def releaseDirOf (releasesDir version : List Char) : List Char :=
  join releasesDir ("elasticsearch-".toList ++ version)

/-- The `try` block of `main` for one version. -/
def buildIndex (version releaseDir tmpDir dataDir outputDir : List Char) : M Unit := do
  removePlugin version releaseDir "license".toList
  removePlugin version releaseDir "shield".toList
  run (rmShieldCommand releaseDir)
  installPlugin version releaseDir "license".toList
  installPlugin version releaseDir "shield".toList
  run (esusersCommand releaseDir)
  let node ← startNode version releaseDir dataDir
  setNode (some node)
  createClient
  generateSecurityIndex version
  shutdownNode node
  setNode none
  compressIndex version tmpDir outputDir

/-- `if node is not None: shutdown_node(node)`. -/
def shutdownLeftover : M Unit := do
  match (← get).node with
  | some node => shutdownNode node
  | none => pure ()

/-- The `finally` block of `main` for one version. -/
def cleanup (tmpDir : List Char) : M Unit := do
  shutdownLeftover
  rmtree tmpDir

/-- One turn of `main`'s loop. -/
def processVersion (cfg : Config) (version : List Char) : M Unit :=
  match belowMinimum version with
  | none => throw (.assertionError [])
  | some true => pure ()
  | some false => do
    let releaseDir := releaseDirOf cfg.releasesDir version
    check (← pathExists releaseDir)
      (.runtimeError ("ES version ".toList ++ version ++ " does not exist in ".toList ++
        cfg.releasesDir))
    let tmpDir ← mkdtemp
    let dataDir := join tmpDir "data".toList
    setNode none
    tryFinally (buildIndex version releaseDir tmpDir dataDir cfg.outputDir) (cleanup tmpDir)

/-- `main()`, from the arguments `argparse` returned. -/
def main (args : Config) : M Unit := do
  let cfg ← parseConfig args
  cfg.versions.forM (processVersion cfg)

end DevTools.Bwc
