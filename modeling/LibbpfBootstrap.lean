import LibbpfBootstrap.Kernel.Runs
import LibbpfBootstrap.Kernel.BpfMap
import LibbpfBootstrap.Kernel.CString
import LibbpfBootstrap.Kernel.Helpers
import LibbpfBootstrap.Kernel.RingBuf
import LibbpfBootstrap.Kernel.CommitLog
import LibbpfBootstrap.Kernel.Producers
import LibbpfBootstrap.Kernel.SlotRing
import LibbpfBootstrap.Kernel.Layout
import LibbpfBootstrap.Kernel.SeqFile
import LibbpfBootstrap.Libc.Text
import LibbpfBootstrap.Libc.Format
import LibbpfBootstrap.Libc.Lines
import LibbpfBootstrap.Libc.Setup
import LibbpfBootstrap.Rust.Utf8
import LibbpfBootstrap.Elf.Object
import LibbpfBootstrap.Bootstrap.Handlers
import LibbpfBootstrap.Bootstrap.History
import LibbpfBootstrap.Bootstrap.MinDuration
import LibbpfBootstrap.Bootstrap.Attach
import LibbpfBootstrap.Bootstrap.StaleBytes
import LibbpfBootstrap.Bootstrap.Capacity
import LibbpfBootstrap.Bootstrap.Lifetime
import LibbpfBootstrap.Bootstrap.Interleaved
import LibbpfBootstrap.Bootstrap.Linear
import LibbpfBootstrap.Bootstrap.Table
import LibbpfBootstrap.Tracecon.Probes
import LibbpfBootstrap.Tracecon.Attribution
import LibbpfBootstrap.Tracecon.Answers
import LibbpfBootstrap.Tracecon.Capacity
import LibbpfBootstrap.Tracecon.Filter
import LibbpfBootstrap.Tracecon.Screen
import LibbpfBootstrap.Tracecon.Symbols
import LibbpfBootstrap.Sockfilter.Handler
import LibbpfBootstrap.Sockfilter.Ring
import LibbpfBootstrap.Sockfilter.Independence
import LibbpfBootstrap.Sockfilter.Truncation
import LibbpfBootstrap.Sockfilter.Decode
import LibbpfBootstrap.Sockfilter.Interleaved
import LibbpfBootstrap.Sockfilter.Interface
import LibbpfBootstrap.EventLoop
import LibbpfBootstrap.TaskIter
import LibbpfBootstrap.Mains
import LibbpfBootstrap.OwnProcess
import LibbpfBootstrap.Lsm
import LibbpfBootstrap.Uprobe
import LibbpfBootstrap.Tc.Filters
import LibbpfBootstrap.Tc.Ingress
import LibbpfBootstrap.Tracing.Life
import LibbpfBootstrap.Tracing.Kill
import LibbpfBootstrap.Tracing.Unlink
import LibbpfBootstrap.Profile.Setup
import LibbpfBootstrap.Profile.Release
import LibbpfBootstrap.Profile.Render
import LibbpfBootstrap.Profile.TaskName
import LibbpfBootstrap.Profile.Options
import LibbpfBootstrap.Profile.Interleaved
import LibbpfBootstrap.Profile.Printed
