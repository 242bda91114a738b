import CoralNpu.FirstMatch
import CoralNpu.MemoryRegion
import CoralNpu.SimulatorState
import CoralNpu.VectorAccess
import CoralNpu.VectorMemory
import CoralNpu.VectorFault
import CoralNpu.AsciiText
import CoralNpu.PartialState
import CoralNpu.CodeImage
import CoralNpu.Prng
import CoralNpu.IsgEngine
import CoralNpu.IsgBuilders
import CoralNpu.IsgParts
import CoralNpu.IsgBuffer
import CoralNpu.IsgReset
import CoralNpu.IsgLayout
import CoralNpu.IsgCompletion
import CoralNpu.IsgProgram
import CoralNpu.WordMemory
import CoralNpu.Rv32
import CoralNpu.Rv32Text
import CoralNpu.VsetText
import CoralNpu.IsgSandbox
import CoralNpu.IsgVectorView
import CoralNpu.IsgVectorTracker
import CoralNpu.OrchestratorMutate
import CoralNpu.IsgMutator
import CoralNpu.OrchestratorFinalize
import CoralNpu.Rv32Code
import CoralNpu.OrchestratorSelfCheck
import CoralNpu.IsgConstants
import CoralNpu.Rv32Loops
import CoralNpu.IsgLoops
import CoralNpu.ActionPointMemory
import CoralNpu.CoralNpuTop
import CoralNpu.CoralNpuTopResume
import CoralNpu.CoralNpuTopStep
import CoralNpu.CoralNpuTopBreakpoint
import CoralNpu.CoralNpuTopTransparent
import CoralNpu.BinFmt
import CoralNpu.CoralNpuBaseFmt
import CoralNpu.CoralNpuBaseIsa
import CoralNpu.CoralNpuVectorFmt
import CoralNpu.CoralNpuEncoding
import CoralNpu.BehavioralArchive
import CoralNpu.CInt
import CoralNpu.Lanes
import CoralNpu.CoralNpuVectorShift
import CoralNpu.FlatMemory
import CoralNpu.FiniteRun
import CoralNpu.DmaMemory
import CoralNpu.Traces
import CoralNpu.DmaDevice
import CoralNpu.LastWriter
import CoralNpu.ExecutionTracker
import CoralNpu.RandomSimulatorMemory
import CoralNpu.BlockMemory
import CoralNpu.CoralNpuRenodeMemory
import CoralNpu.CoralNpuRenodeStep
import CoralNpu.CoralNpuTopMemory
import CoralNpu.CoralNpuRenodeAgent
import CoralNpu.OrchestratorEvolve
import CoralNpu.Lcov
import CoralNpu.ExecutionReport
import CoralNpu.RandomSimulation
import CoralNpu.IsgDatabase
import CoralNpu.CoralNpuCosim
import CoralNpu.CoralNpuVectorOperands
import CoralNpu.CoralNpuVectorFootprint
import CoralNpu.CoralNpuVectorExecute
import CoralNpu.CoralNpuVectorFixedPoint
import CoralNpu.CoralNpuVectorNarrow
import CoralNpu.CoralNpuVectorBits
import CoralNpu.CoralNpuVectorStrip
import CoralNpu.CoralNpuVectorPermute
import CoralNpu.CoralNpuVectorWiden
import CoralNpu.CoralNpuVectorLoadStore
import CoralNpu.Accumulate
import CoralNpu.CoralNpuVectorAccumulator
import CoralNpu.CoralNpuVectorConvolution
import CoralNpu.FloatRounding
import CoralNpu.CoralNpuBfloat16
import CoralNpu.CoralNpuBfloat16Flags
import CoralNpu.CoralNpuBfloat16Widen
import CoralNpu.CoralNpuVectorBfloat16
import CoralNpu.CoralNpuVectorBfloat16Bound
import CoralNpu.CoralNpuScalarAccess
import CoralNpu.CoralNpuJump
import CoralNpu.CoralNpuTileMemory
import CoralNpu.BitLayout
import CoralNpu.CoralNpuM3BinEncoder
import CoralNpu.CoralNpuM3Numbers
import CoralNpu.CoralNpuM3Operands
import CoralNpu.CoralNpuLogString
import CoralNpu.CoralNpuRegisterZero
import CoralNpu.IsgLoadStore
import CoralNpu.IsgTrapHandler
import CoralNpu.CoralNpuM3Registers
import CoralNpu.TextRewrite
import CoralNpu.CoralNpuM3Assembler
import CoralNpu.CoralNpuM3VsetText
import CoralNpu.CoralNpuM3Vset
