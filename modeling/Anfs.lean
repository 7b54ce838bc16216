import Anfs.Xdr
import Anfs.Prot.Codec
import Anfs.Rpc.Resend
import Anfs.Nfs.AsyncWrite
import Anfs.Buf.Table
import Anfs.File.Fallback
import Anfs.File.Direct
import Anfs.File.Reports
import Anfs.File.Reading
import Anfs.File.Overrun
import Anfs.File.Agree
import Anfs.File.Shares
import Anfs.File.Results
import Anfs.File.Size
import Anfs.File.AsyncRead
import Anfs.Cred.Identity
import Anfs.Cred.Unsent
import Anfs.Dir.Scan
import Anfs.Path.Unify
import Anfs.Cache.Owned
import Anfs.Cache.Pinned
import Anfs.Action.Prepare
import Anfs.Path.Resolve
import Anfs.Tree.Unique
import Anfs.Tree.ReadLink
import Anfs.Lock.Mode
import Anfs.Lock.Names
import Anfs.Lock.Exclusion
import Anfs.Lock.FullNames
import Anfs.Lock.Kept
import Anfs.Lock.Protected
import Anfs.Cache.Expiry
import Anfs.Dir.Dates
import Anfs.Dir.ExamineAll
import Anfs.Dir.Delivered
import Anfs.Dir.Lookup
import Anfs.Dir.ScanAll
