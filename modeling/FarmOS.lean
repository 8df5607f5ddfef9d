import FarmOS.Fat.Blocks
import FarmOS.Fat.Bytes
import FarmOS.Fat.Entries
import FarmOS.Fs.FdExact
import FarmOS.Futex.Exact
import FarmOS.Futex.Locked
import FarmOS.Mm.Brk
import FarmOS.Mm.CopyStr
import FarmOS.Mm.Finite
import FarmOS.Mm.KernelCopy
import FarmOS.Mm.KmallocRun
import FarmOS.Mm.Released
import FarmOS.Mm.Segment
import FarmOS.Net.PeersExact
import FarmOS.Net.Requests
import FarmOS.Net.StreamExact
import FarmOS.Net.UdpExact
import FarmOS.Proc.Mutex
import FarmOS.Proc.Notify
import FarmOS.Proc.Quiet
import FarmOS.Process.Slots
import FarmOS.Process.Wait
import FarmOS.Signal.Alarm
import FarmOS.Signal.Conserve
import FarmOS.Signal.Transparent
import FarmOS.Text.Strings
import FarmOS.Walk.Balance
