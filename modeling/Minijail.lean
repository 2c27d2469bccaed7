import Minijail.Defs.Bytes
import Minijail.Defs.Policy
import Minijail.Defs.Builder
import Minijail.Defs.BuilderLaws
import Minijail.Defs.BuilderErrors
import Minijail.Defs.Marshal
import Minijail.Defs.Unmarshal
import Minijail.Defs.UnmarshalLaws
import Minijail.Defs.Grammar
import Minijail.Defs.UnmarshalErrors
import Minijail.Defs.RoundTrip
import Minijail.Defs.Pipe
import Minijail.Defs.Enter
import Minijail.Defs.EnterPlan
import Minijail.Defs.EnterLaws
import Minijail.Defs.Launch
import Minijail.Defs.Chroot
import Minijail.Defs.Caps
import Minijail.Defs.Init
import Minijail.Defs.Descriptors
import Minijail.Defs.ProcessGroups
import Minijail.Defs.GetPath
import Minijail.Defs.GetPathLaws
import Minijail.Defs.MountView
import Minijail.Defs.BindOne
import Minijail.Defs.ConcatPath
import Minijail.Defs.Limits
import Minijail.Defs.RunPidPipes
import Minijail.Defs.SyscallHelper
import Minijail.Defs.SyscallHelperLaws
import Minijail.Defs.Minijail0
import Minijail.Defs.Minijail0Laws
import Minijail.Defs.Wait
import Minijail.Defs.Destroy
import Minijail.Defs.Teardown
