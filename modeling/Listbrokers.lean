import Listbrokers.Framework.Lts
import Listbrokers.Async.FastPath
import Listbrokers.Async.Notification
import Listbrokers.Async.InTime
import Listbrokers.Async.Cookies
import Listbrokers.Framework.StateOp
import Listbrokers.Tiles.Tile
import Listbrokers.Tiles.Surrounds
import Listbrokers.Tiles.Sharing
import Listbrokers.Tiles.Sequence
import Listbrokers.Tiles.RandomAccess
import Listbrokers.Tiles.Failures
import Listbrokers.Tiles.Fillers
import Listbrokers.Tiles.Cancellation
import Listbrokers.Lru.Ages
import Listbrokers.Lru.MoveToEnd
import Listbrokers.Lru.SelfCheck
import Listbrokers.Lru.Policy
import Listbrokers.Lru.Wakeup
import Listbrokers.Lru.Toposort
import Listbrokers.Lru.Interval
import Listbrokers.Lru.Tick
import Listbrokers.Lru.FreshIds
import Listbrokers.Lru.Survival
import Listbrokers.Lru.RootRuns
import Listbrokers.Queue.Returns
import Listbrokers.Queue.Disturbance
import Listbrokers.Tree.GetListId
import Listbrokers.Tree.Ranges
import Listbrokers.Tree.FollowPath
import Listbrokers.Tree.Traces
import Listbrokers.Tree.Safety
import Listbrokers.Tree.CachedRuns
import Listbrokers.Upnp.Discovery
import Listbrokers.Upnp.Filling
import Listbrokers.Upnp.Presence
import Listbrokers.Upnp.Connection
import Listbrokers.Cacheable.Answers
