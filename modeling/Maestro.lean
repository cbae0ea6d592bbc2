import Maestro.Client.ExactIntegers
import Maestro.Client.FullList
import Maestro.Client.PagerEnds
import Maestro.Client.WatchOutlines
import Maestro.Client.WatcherGauge
import Maestro.Controllers.Exclusive
import Maestro.Controllers.Forgetting
import Maestro.Controllers.LockBalance
import Maestro.Controllers.StaleDeletes
import Maestro.Controllers.Undelivered
import Maestro.Dispatcher.Disowned
import Maestro.Dispatcher.NoopDispatcher
import Maestro.Dispatcher.Resync
import Maestro.Handlers.ConsumerSerial
import Maestro.Handlers.Lists
import Maestro.Server.Announcement
import Maestro.Server.Authentication
import Maestro.Server.Deleting
import Maestro.Server.Isolation
import Maestro.Server.Liveness
import Maestro.Server.StatusResync
import Maestro.Server.StatusStream
import Maestro.Server.SubscriptionEnds
import Maestro.Server.Supersede
import Maestro.Server.Throttle
import Maestro.Server.Unchanged
import Maestro.Services.Atomicity
import Maestro.Services.ManifestKeys
