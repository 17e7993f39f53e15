import VulosRelay.Proof.AddressScreens
import VulosRelay.Proof.AliasNames
import VulosRelay.Proof.Attestations
import VulosRelay.Proof.Backoffs
import VulosRelay.Proof.BilledOnce
import VulosRelay.Proof.BoxHandshake
import VulosRelay.Proof.BoxKeys
import VulosRelay.Proof.BrowserParity
import VulosRelay.Proof.CleartextMail
import VulosRelay.Proof.ColdContacts
import VulosRelay.Proof.CredentialedProbes
import VulosRelay.Proof.DkimRoundTrip
import VulosRelay.Proof.DoubleEntry
import VulosRelay.Proof.ExactQuota
import VulosRelay.Proof.FeedRequests
import VulosRelay.Proof.ForgedAnswers
import VulosRelay.Proof.ForwardSecrecy
import VulosRelay.Proof.ForwardedHeaders
import VulosRelay.Proof.FreshEndpoints
import VulosRelay.Proof.Handoff
import VulosRelay.Proof.HopByHop
import VulosRelay.Proof.Hysteresis
import VulosRelay.Proof.Lifetimes
import VulosRelay.Proof.MailRecipients
import VulosRelay.Proof.NoReplay
import VulosRelay.Proof.NodeChoice
import VulosRelay.Proof.OlderReads
import VulosRelay.Proof.OneTimeKeys
import VulosRelay.Proof.Passthrough
import VulosRelay.Proof.PinRecovery
import VulosRelay.Proof.PolicyBinding
import VulosRelay.Proof.PreKeys
import VulosRelay.Proof.ReceiptSequences
import VulosRelay.Proof.RelayParity
import VulosRelay.Proof.RendezvousLoops
import VulosRelay.Proof.ReplayWindow
import VulosRelay.Proof.RoutingPolicy
import VulosRelay.Proof.SenderIdentity
import VulosRelay.Proof.ServedVerified
import VulosRelay.Proof.ServerNames
import VulosRelay.Proof.SigningMessages
import VulosRelay.Proof.SingleUse
import VulosRelay.Proof.SpfBounds
import VulosRelay.Proof.SpfTerms
import VulosRelay.Proof.StaticGrants
import VulosRelay.Proof.StoreLru
import VulosRelay.Proof.SubmissionContent
import VulosRelay.Proof.TokenBuckets
import VulosRelay.Proof.TunnelNames
import VulosRelay.Proof.UsageConserved
import VulosRelay.Proof.WakeUps
