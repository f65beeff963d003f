import CommitCloud.Server.HeadUpdates
import CommitCloud.Server.CommitProjection
import CommitCloud.Server.TreeOrder
import CommitCloud.Server.OpStoreIds
import CommitCloud.Server.CommitIds
import CommitCloud.Server.TreeIds
import CommitCloud.Client.Publish
import CommitCloud.Client.OperationRoundTrip
import CommitCloud.Client.ViewRoundTrip
import CommitCloud.Client.IterationOrder
import CommitCloud.Server.Registration
import CommitCloud.Server.References
import CommitCloud.Server.Concurrent
import CommitCloud.Server.Isolation
import CommitCloud.Client.Files
import CommitCloud.Client.TreeRoundTrip
import CommitCloud.Client.CommitSignatures
import CommitCloud.Client.RefTargets
import CommitCloud.Client.Decoding
import CommitCloud.Client.PrefixResolution
import CommitCloud.Server.Repositories
import CommitCloud.Server.SoundRepositories
import CommitCloud.Server.Retries
import CommitCloud.Client.Values
import CommitCloud.Client.Cloud
import CommitCloud.Client.Refinement
import CommitCloud.Client.ReadHistory
import CommitCloud.Client.Rewrites
import CommitCloud.Client.Checkout
import CommitCloud.Client.LinearHistory
import CommitCloud.Client.WorkspaceIsolation
import CommitCloud.Client.Deployment
import CommitCloud.Client.ConcurrentCalls
