import DleynaCore.TaskProcessor.Proofs.DispatchProofs
import DleynaCore.TaskProcessor.Proofs.AddQueueProofs
import DleynaCore.TaskProcessor.Proofs.CommuteProofs
import DleynaCore.TaskProcessor.Proofs.FinallyProofs
import DleynaCore.TaskProcessor.Proofs.NonInterferenceProofs
import DleynaCore.TaskProcessor.Proofs.QuittingProofs
import DleynaCore.TaskProcessor.Proofs.ProgressProofs
import DleynaCore.TaskProcessor.Proofs.LifetimeProofs
import DleynaCore.TaskProcessor.Proofs.QueueSystemProofs
import DleynaCore.MainLoop.Proofs.ContextProofs
import DleynaCore.MainLoop.Proofs.QuitsProofs
import DleynaCore.MainLoop.Proofs.StartProofs
import DleynaCore.ServiceTask.Proofs.CompletesOnceProofs
import DleynaCore.ServiceTask.Proofs.DrainsProofs
import DleynaCore.ServiceTask.Proofs.FailedStepProofs
import DleynaCore.ServiceTask.Proofs.SourceProofs
import DleynaCore.ServiceTask.Proofs.AccountsProofs
import DleynaCore.ServiceTask.Proofs.ProgressProofs
import DleynaCore.ServiceTask.Proofs.ActionsProofs
import DleynaCore.ServiceTask.Proofs.InTurnProofs
import DleynaCore.Connector.Proofs.ConnectorMgrProofs
import DleynaCore.Udn.Proofs.CharacterwiseProofs
import DleynaCore.Udn.Proofs.PartialProofs
import DleynaCore.Settings.Proofs.SavesProofs
import DleynaCore.Settings.Proofs.ReadsProofs
import DleynaCore.Settings.Proofs.SessionsProofs
import DleynaCore.Log.Proofs.FilterProofs
import DleynaCore.Log.Proofs.ConfigureProofs
