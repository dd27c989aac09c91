import DevTools.Text
import DevTools.Effects
import DevTools.PosixPath
import DevTools.Fs
import DevTools.Glob
import DevTools.Renames
import DevTools.Shell
import DevTools.ReleaseCandidate.VersionFile
import DevTools.ReleaseCandidate.ReleaseVersion
import DevTools.ReleaseCandidate.Checkout
import DevTools.ReleaseCandidate.MetaFiles
import DevTools.ReleaseCandidate.MetaWalk
import DevTools.ReleaseCandidate.MetaRecipe
import DevTools.ReleaseCandidate.CleanRepo
import DevTools.ReleaseCandidate.Main
import DevTools.Bwc.ParseVersion
import DevTools.Bwc.World
import DevTools.Bwc.Script
import DevTools.Bwc.Cleanup
import DevTools.Bwc.Commands
import DevTools.Bwc.Fixtures
import DevTools.Bwc.Success
import DevTools.Bwc.Archives
