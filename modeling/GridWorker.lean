import GridWorker.Main
import GridWorker.Proofs.AnsweredRequests
import GridWorker.Proofs.ListedArguments
import GridWorker.Proofs.NumeralValues
import GridWorker.Proofs.PlannedWorkloads
import GridWorker.Proofs.ScheduleAccount
import GridWorker.Schedule
import GridWorker.Proofs.DeadlineLaw
import GridWorker.Proofs.LoggedCalls
import GridWorker.Proofs.AcceptedEvents
import GridWorker.Proofs.PayloadSecrecy
import GridWorker.Proofs.EventWire
import GridWorker.Proofs.IsolatedCalls
import GridWorker.Proofs.LogLines
import GridWorker.Proofs.WireForms
import GridWorker.Proofs.RingWindow
import GridWorker.Proofs.RingWords
import GridWorker.Proofs.PlanFaults
import GridWorker.Proofs.CrashBoundary
import GridWorker.Proofs.ArchiveReading
import GridWorker.Proofs.PackagedWorker
import GridWorker.Proofs.RespelledEvents
import GridWorker.Proofs.ComputedValues
import GridWorker.Proofs.SleepTimes
import GridWorker.Proofs.CounterTickets
import GridWorker.Proofs.FlagWords
import GridWorker.Proofs.Utf8Text
import GridWorker.Proofs.StartedHosts
import GridWorker.Proofs.StoppedBuilds
import GridWorker.Proofs.WrittenOptions
import GridWorker.Proofs.OptionForms
