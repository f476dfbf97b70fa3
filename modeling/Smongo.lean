import Smongo.Collection.Inserts
import Smongo.Planner.Eligibility
import Smongo.Collection.Specialised
import Smongo.Collection.TextSearch
import Smongo.Database.Renaming
import Smongo.Client.Namespaces
import Smongo.Oplog.Tailing
import Smongo.Oplog.Truncation
import Smongo.Client.Handles
import Smongo.Collection.Repair
import Smongo.Collection.Expiry
import Smongo.Aggregation.Out
import Smongo.Aggregation.IndexBacked
import Smongo.Sync.Delivery
import Smongo.Aggregation.Optimizer
import Smongo.Oplog.Resume
import Smongo.Sync.Letters
import Smongo.Sync.Tiebreak
import Smongo.Sync.Clock
import Smongo.Sync.Detection
import Smongo.Sync.Catchup
import Smongo.Aggregation.SortLimit
import Smongo.Aggregation.Buckets
import Smongo.Aggregation.Streaming
import Smongo.Aggregation.ExternalGroup
import Smongo.Update.Arrays
import Smongo.Storage.Opfs
import Smongo.Wire.Gate
import Smongo.Index.Collation
import Smongo.Index.VisitedSet
