import Cpptrw.Text.Capacity
import Cpptrw.Text.Dangling
import Cpptrw.Text.Numeral
import Cpptrw.Text.LogRecord
import Cpptrw.Text.Sharing
import Cpptrw.Arena.Blocks
import Cpptrw.Arena.Accounting
import Cpptrw.Arena.Replay
import Cpptrw.Fcgi.MemorySafety
import Cpptrw.Fcgi.ResponseRun
import Cpptrw.Fcgi.LostParameters
import Cpptrw.Main.KeepConnection
import Cpptrw.Main.Delivery
import Cpptrw.Main.ResponseStream
import Cpptrw.Main.ProcessName
import Cpptrw.Main.ShortWrite
import Cpptrw.Main.ParseProgress
import Cpptrw.Hashtable.Load
import Cpptrw.Hashtable.Waste
import Cpptrw.Leftover.Placement
import Cpptrw.Main.Worker
import Cpptrw.Leftover.RecordValues
import Cpptrw.Leftover.Repeated
