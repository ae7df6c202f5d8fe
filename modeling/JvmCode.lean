import JvmCode.Adapter
import JvmCode.ByteReader
import JvmCode.ClassVersion
import JvmCode.CommandLine
import JvmCode.ConstantPool.Basic
import JvmCode.ConstantPool.Constant
import JvmCode.ConstantPool.Lookup
import JvmCode.ConstantPool.Reader
import JvmCode.Descriptor.Basic
import JvmCode.Descriptor.Parser
import JvmCode.EmitError
import JvmCode.Flags.Basic
import JvmCode.Flags.ClassFile
import JvmCode.Floating.Basic
import JvmCode.Floating.Shortest
import JvmCode.Instruction.Basic
import JvmCode.Instruction.Decoder
import JvmCode.Instruction.Encoding
import JvmCode.Instruction.Flow
import JvmCode.Instrument.ClassSink
import JvmCode.Instrument.Declared
import JvmCode.Instrument.Instrumentation
import JvmCode.Instrument.Matcher
import JvmCode.Log.Record
import JvmCode.Log.Wording
import JvmCode.Main
import JvmCode.Manipulation.Apply
import JvmCode.Manipulation.Basic
import JvmCode.Manipulation.Leaves
import JvmCode.ModifiedUtf8.Basic
import JvmCode.ModifiedUtf8.Decoder
import JvmCode.Name
import JvmCode.OperandStack
import JvmCode.Sink.Assembler
import JvmCode.Sink.Basic
import JvmCode.Sink.StackMeter
import JvmCode.Sink.Tower
import JvmCode.Sink.Tracer
import JvmCode.Sink.Visit
import JvmCode.StackEffect.Basic
import JvmCode.StackEffect.Grouping
import JvmCode.StackEffect.Words
import JvmCode.Text.Quoted
import JvmCode.ToBytes
import JvmCode.ValueSize
import JvmCode.Proofs.ConstantPool.Contents
import JvmCode.Proofs.ConstantPool.Entries
import JvmCode.Proofs.ConstantPool.Growth
import JvmCode.Proofs.ConstantPool.Interning
import JvmCode.Proofs.ConstantPool.Reordering
import JvmCode.Proofs.ConstantPool.Serialization
import JvmCode.Proofs.Instruction.RoundTrip
import JvmCode.Proofs.Sink.AssembledCode
import JvmCode.Proofs.Sink.Taking
import JvmCode.Proofs.Sink.Measuring
import JvmCode.Proofs.Sink.Layers
import JvmCode.Proofs.Descriptor.RoundTrip
import JvmCode.Proofs.Instrument.Recording
import JvmCode.Proofs.Instrument.Dispatch
import JvmCode.Proofs.Instrument.InTurn
import JvmCode.Proofs.Manipulation.Emission
import JvmCode.Proofs.Manipulation.StackAccounting
import JvmCode.Proofs.Instruction.Execution
import JvmCode.Proofs.Manipulation.Arguments
import JvmCode.Proofs.Adapter.Listing
import JvmCode.Proofs.Adapter.Generated
import JvmCode.Proofs.ConstantPool.Layout
import JvmCode.Proofs.ConstantPool.References
import JvmCode.Proofs.Manipulation.LoadableArguments
import JvmCode.Proofs.Adapter.Reports
import JvmCode.Proofs.Manipulation.Outcomes
import JvmCode.Proofs.Sink.SettledCode
import JvmCode.Proofs.Manipulation.Repetition
import JvmCode.Proofs.Manipulation.HandleCalls
import JvmCode.Proofs.Sink.Acceptance
import JvmCode.Proofs.Adapter.Generation
import JvmCode.Proofs.Instrument.Forwarding
import JvmCode.Proofs.Instrument.Consultation
import JvmCode.Proofs.StackEffect.AnyGrouping
import JvmCode.Proofs.Manipulation.Constants
import JvmCode.Proofs.Manipulation.ArgumentLoads
import JvmCode.Proofs.ModifiedUtf8.RoundTrip
import JvmCode.Proofs.ModifiedUtf8.StandardForm
import JvmCode.Proofs.Name.Segments
