import SmartPay.CText
import SmartPay.CFormat
import SmartPay.CNumeral
import SmartPay.CHeap
import SmartPay.Runs
import SmartPay.EquipmentMgrCore
import SmartPay.RunHttpServerCore
import SmartPay.ServiceReference
import SmartPay.StoreRefinement
import SmartPay.DatabaseChecks
import SmartPay.EncoderChecks
import SmartPay.ReplyDecoding
import SmartPay.ManagerChecks
import SmartPay.ReplyBounds
import SmartPay.ServerChecks
import SmartPay.EndpointChecks
import SmartPay.ExchangeChecks
import SmartPay.LeftoverChecks
import SmartPay.SequentialChecks
import SmartPay.ConnectionChecks
import SmartPay.ReuseChecks
import SmartPay.ProtocolCore
import SmartPay.ProtocolSteps
import SmartPay.OwnershipChecks
import SmartPay.ProtocolChecks
import SmartPay.RefinementChecks
import SmartPay.HandoverChecks
import SmartPay.LifetimeChecks
import SmartPay.IdentifierChecks
import SmartPay.ForgeryChecks
import SmartPay.JsonGrammar
import SmartPay.JsonUnique
import SmartPay.JsonReplies
import SmartPay.InputBounds
import SmartPay.StoreMapChecks
import SmartPay.QueueFifoChecks
import SmartPay.ReleaseChecks
import SmartPay.RoundTripChecks
import SmartPay.Linearizability
import SmartPay.LeavingChecks
import SmartPay.WholeLifeChecks
import SmartPay.HistoryChecks
import SmartPay.LockChecks
import SmartPay.SessionChecks
import SmartPay.ProgressChecks
import SmartPay.ShutdownChecks
import SmartPay.ExitChecks
import SmartPay.PostStatusCore
import SmartPay.LeakChecks
import SmartPay.ScheduleChecks
import SmartPay.ChunkedChecks
import SmartPay.DeliveryChecks
import SmartPay.NetworkChecks
import SmartPay.KeepAliveChecks
import SmartPay.PipelineChecks
import SmartPay.CallOrderChecks
