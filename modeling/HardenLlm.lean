import HardenLlm.Batch.Settlement
import HardenLlm.Batch.Fencing
import HardenLlm.Batch.Drain
import HardenLlm.Batch.Replay
import HardenLlm.Batch.Pacing
import HardenLlm.Batch.Adaptation
import HardenLlm.Batch.Stall
import HardenLlm.Batch.Snapshot
import HardenLlm.Batch.Watch
import HardenLlm.Batch.Archive
import HardenLlm.Runtime.Progress
import HardenLlm.Runtime.Attribution
import HardenLlm.Runtime.Targets
import HardenLlm.Runtime.Usages
import HardenLlm.Gateway.Replay
import HardenLlm.Stateful.Isolation
import HardenLlm.Client.Fidelity
import HardenLlm.Stateful.Signals
import HardenLlm.Stateful.Registry
import HardenLlm.Stateful.Vault
import HardenLlm.Batch.Queue
import HardenLlm.Redaction.Soundness
import HardenLlm.Providers.EventStream
import HardenLlm.Httpclient.Stream
import HardenLlm.Gateway.ReferenceStream
import HardenLlm.Ui.Pagination
