import StreamClient.Sim.PoolBench
import StreamClient.Sim.Report
import StreamClient.Proofs.Link.Failover
import StreamClient.Proofs.Link.Run
import StreamClient.Proofs.Pool.Refinement
import StreamClient.Proofs.Client.Places
import StreamClient.Proofs.Client.Closing
import StreamClient.Proofs.Client.Deeds
import StreamClient.Proofs.Client.Stories
import StreamClient.Proofs.Client.Conduct
import StreamClient.Proofs.Client.Lives
import StreamClient.Proofs.Client.Feeds
import StreamClient.Proofs.Client.Release
import StreamClient.Proofs.Client.Delivery
import StreamClient.Proofs.Client.Deadlines
import StreamClient.Proofs.Client.Rest
import StreamClient.Proofs.Client.Snapshots
import StreamClient.Proofs.Client.Routing
import StreamClient.Proofs.Client.Retirement
import StreamClient.Proofs.Client.Fallbacks
import StreamClient.Proofs.Client.Translation
import StreamClient.Proofs.Client.Handshake
import StreamClient.Proofs.Client.Resolution
import StreamClient.Proofs.Client.Publication
import StreamClient.Proofs.Client.Unacked
import StreamClient.Proofs.Client.Leftovers
import StreamClient.Proofs.Client.Renewal
import StreamClient.Proofs.Keying
