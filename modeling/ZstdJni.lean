import ZstdJni.Foundation.Loop
import ZstdJni.Foundation.FrameDecoder
import ZstdJni.Foundation.FrameTable
import ZstdJni.Foundation.FrameEncoder
import ZstdJni.Native.Result
import ZstdJni.Native.DStream
import ZstdJni.Native.CStream
import ZstdJni.Native.RawFrames
import ZstdJni.InputStream.Model
import ZstdJni.InputStream.Spec
import ZstdJni.InputStream.Invariant
import ZstdJni.InputStream.Turn
import ZstdJni.InputStream.Read
import ZstdJni.InputStream.Complete
import ZstdJni.InputStream.Truncated
import ZstdJni.OutputStream.Model
import ZstdJni.OutputStream.Spec
import ZstdJni.OutputStream.Loops
import ZstdJni.OutputStream.Emission
import ZstdJni.Native.FrameApi
import ZstdJni.OneShot.Model
import ZstdJni.OneShot.Walk
import ZstdJni.OneShot.Guard
import ZstdJni.OneShot.Exact
import ZstdJni.Foundation.Machine
import ZstdJni.AutoClose.Model
import ZstdJni.AutoClose.Protocol
import ZstdJni.CompressCtx.SharedArray
import ZstdJni.CompressCtx.ByteBufferStream
import ZstdJni.CompressCtx.StorageIndependence
import ZstdJni.BufferDecompress.Model
import ZstdJni.BufferDecompress.Spec
import ZstdJni.BufferDecompress.Deliver
import ZstdJni.BufferDecompress.Exact
import ZstdJni.Native.AnyInput
import ZstdJni.BufferDecompress.Endless
import ZstdJni.BufferCompress.Model
import ZstdJni.BufferCompress.Deliver
import ZstdJni.Foundation.EagerDecoder
import ZstdJni.InputStream.Stable
import ZstdJni.InputStream.Continuous
import ZstdJni.InputStream.Stranded
import ZstdJni.Foundation.Watch
import ZstdJni.Protocol.Decoding
import ZstdJni.Protocol.Encoding
import ZstdJni.OutputStream.CloseParent
import ZstdJni.Native.FrameHeader
import ZstdJni.Inspect.Model
import ZstdJni.Inspect.Windows
import ZstdJni.Inspect.ContentSize
import ZstdJni.Context.Packed
import ZstdJni.Foundation.Checks
import ZstdJni.Context.OneShot
import ZstdJni.Context.Windows
import ZstdJni.Context.StreamWindows
import ZstdJni.Context.Allocating
import ZstdJni.Context.ReadOnly
import ZstdJni.Context.ReadOnlyStreams
import ZstdJni.Context.ReadOnlyTargets
import ZstdJni.Context.ReadOnlyLoops
import ZstdJni.Context.ReadOnlyOperations
import ZstdJni.Errors.Codes
import ZstdJni.Context.SequenceProducer
import ZstdJni.Pool.Capacity
import ZstdJni.Pool.Lifecycle
import ZstdJni.Pool.Recycling
import ZstdJni.Dict.Training
import ZstdJni.Foundation.Method
import ZstdJni.Foundation.Lease
import ZstdJni.Dict.SharedLock
import ZstdJni.Dict.Native
import ZstdJni.Dict.World
import ZstdJni.Dict.Contexts
import ZstdJni.Dict.ContextLock
import ZstdJni.Dict.ContextDict
import ZstdJni.Dict.ContextAccount
import ZstdJni.Dict.ContextClose
import ZstdJni.Dict.Streams
import ZstdJni.Dict.StreamDict
import ZstdJni.Dict.StreamAccount
import ZstdJni.Dict.References
import ZstdJni.Foundation.BitStack
import ZstdJni.Native.LittleEndian
import ZstdJni.Entropy.BitStream
import ZstdJni.Foundation.Scatter
import ZstdJni.Foundation.TableCoder
import ZstdJni.Entropy.FseTable
import ZstdJni.Entropy.FseCoder
import ZstdJni.Entropy.NCountRead
import ZstdJni.Entropy.NCountRoundTrip
import ZstdJni.Sequences.Codes
import ZstdJni.Sequences.Repcodes
import ZstdJni.Sequences.Store
import ZstdJni.Sequences.Encode
import ZstdJni.Sequences.Decode
import ZstdJni.Sequences.Section
import ZstdJni.Foundation.BlockCopy
import ZstdJni.Sequences.Execute
import ZstdJni.Sequences.Parse
import ZstdJni.Sequences.Transfer
import ZstdJni.Sequences.Block
import ZstdJni.Foundation.RingBuffer
import ZstdJni.Sequences.Prefetch
import ZstdJni.Sequences.RoundTrip
import ZstdJni.Sequences.Tables
import ZstdJni.Entropy.Normalize
import ZstdJni.Sequences.Producer
import ZstdJni.Sequences.Select
import ZstdJni.Sequences.TableHeaders
import ZstdJni.Sequences.SequencesSection
import ZstdJni.Sequences.Safety
