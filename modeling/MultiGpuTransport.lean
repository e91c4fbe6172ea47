import MultiGpuTransport.D3D12.FailedCalls
import MultiGpuTransport.Bridge.FailedTransfers
import MultiGpuTransport.MappedHost.MixedPaths
import MultiGpuTransport.PairBarrier.Wakeups
import MultiGpuTransport.Shim.GroupErrors
import MultiGpuTransport.D3D12.ConstructionAgrees
import MultiGpuTransport.Vllm.Routing
import MultiGpuTransport.Vllm.SharedMemoryAgrees
import MultiGpuTransport.Vllm.Fallback
import MultiGpuTransport.Shim.D3D12Calls
import MultiGpuTransport.MappedHost.BarrierPath
import MultiGpuTransport.Backends.Broadcast
import MultiGpuTransport.Backends.Decomposition
import MultiGpuTransport.Triton.Results
import MultiGpuTransport.Drafter.RoundTrip
import MultiGpuTransport.Shim.Devices
import MultiGpuTransport.Shim.Settings
import MultiGpuTransport.SharedBuffers.SharedBuffer
import MultiGpuTransport.D3D12.Destroy
import MultiGpuTransport.MappedHost.Destroy
import MultiGpuTransport.Bridge.ThreadedDelivery
import MultiGpuTransport.Dflash2.LogitsProcessor
import MultiGpuTransport.Dflash2.Proposals
import MultiGpuTransport.Shim.Sums
import MultiGpuTransport.Shim.Wiring
