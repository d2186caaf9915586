import Kurogane.Drivers.DriverManager
import Kurogane.Fat32.ShortName
import Kurogane.Install.Replacements
import Kurogane.Ipc.ChannelQueues
import Kurogane.Ipc.SharedMemoryRuns
import Kurogane.KuroFS.FileAtomicity
import Kurogane.KuroFS.FileRefinement
import Kurogane.KuroFS.FirstFit
import Kurogane.Memory.HeapRuns
import Kurogane.Memory.PageRuns
import Kurogane.Memory.SpaceRuns
import Kurogane.Net.HttpRequest
import Kurogane.Net.TcpDelivery
import Kurogane.Net.TcpFin
import Kurogane.Net.TcpRetries
import Kurogane.Net.TcpShared
import Kurogane.Ramfs.Runs
import Kurogane.Task.ProcessRuns
import Kurogane.Task.Releases
import Kurogane.Task.RunQueues
import Kurogane.Ui.Damage
import Kurogane.Ui.Dock
import Kurogane.User.Shell
import Kurogane.User.UserBuffers
import Kurogane.Vfs.Routing
