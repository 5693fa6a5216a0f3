import KvmRs.TransitionProofs
import KvmRs.CodecProofs
import KvmRs.EnvelopeProofs
import KvmRs.FramingProofs
import KvmRs.FrameStreamProofs
import KvmRs.KeymapProofs
import KvmRs.InjectProofs
import KvmRs.CaptureProofs
import KvmRs.StuckKeyProofs
import KvmRs.GrabProofs
import KvmRs.ForwardingProofs
import KvmRs.ToggleAgreementProofs
import KvmRs.DirectoryProofs
import KvmRs.TextProofs
import KvmRs.HotkeyProofs
import KvmRs.FileNameProofs
import KvmRs.TransferProofs
import KvmRs.CompletedFileProofs
import KvmRs.AuthProofs
import KvmRs.RateLimitProofs
import KvmRs.GuessingProofs
import KvmRs.ControlProofs
import KvmRs.AutoForwardProofs
import KvmRs.UiForwardingProofs
import KvmRs.UiSessionProofs
import KvmRs.RevokeProofs
import KvmRs.SessionLoopProofs
import KvmRs.AddrProofs
import KvmRs.ErrorStateProofs
import KvmRs.Socks5Proofs
import KvmRs.ClientConfigProofs
import KvmRs.ConnectProofs
import KvmRs.ReconnectProofs
import KvmRs.BackoffProofs
import KvmRs.HandshakeProofs
import KvmRs.UploadProofs
import KvmRs.UploadOutcomeProofs
import KvmRs.PendingProofs
import KvmRs.ClipboardProofs
import KvmRs.ClipboardAgreementProofs
import KvmRs.WithheldInputProofs
import KvmRs.SharedFileProofs
import KvmRs.ClientFileProofs
import KvmRs.ResumeProofs
import KvmRs.TransferFrameProofs
import KvmRs.FileChannelProofs
import KvmRs.LockstepProofs
import KvmRs.ServerLogProofs
import KvmRs.RedactionProofs
import KvmRs.BindingProofs
import KvmRs.KeyCodeProofs
import KvmRs.AddrGrammarProofs
import KvmRs.ServerArgProofs
import KvmRs.FirstFreeProofs
import KvmRs.DestPathProofs
import KvmRs.HexProofs
import KvmRs.IdentityProofs
import KvmRs.ConfigFileProofs
import KvmRs.HeldOrderProofs
import KvmRs.HeldInputProofs
import KvmRs.AliasProofs
import KvmRs.WarpProofs
import KvmRs.PrivacyProofs
import KvmRs.PaceProofs
import KvmRs.HotkeyRateProofs
import KvmRs.InputOrderProofs
import KvmRs.HeartbeatProofs
import KvmRs.KeepaliveProofs
import KvmRs.PongProofs
import KvmRs.SessionEndProofs
import KvmRs.PairOnceProofs
import KvmRs.EndToEndProofs
import KvmRs.ServerCertProofs
import KvmRs.DiscoveryProofs
import KvmRs.UploadProgressProofs
import KvmRs.AuditProofs
import KvmRs.FileGuardProofs
import KvmRs.TranscriptProofs
import KvmRs.ClipboardHubProofs
