import PaymentRail.Rail.Attempts
import PaymentRail.Rail.Trail
import PaymentRail.Rail.Accounts
import PaymentRail.Rail.Conservation
import PaymentRail.Rail.LostRace
import PaymentRail.Rail.Deadlock
import PaymentRail.Chainwatcher.Feed
import PaymentRail.Chainwatcher.Reorgs
import PaymentRail.Chainwatcher.Finality
import PaymentRail.Chainwatcher.Execution
import PaymentRail.Reconcile.Report
import PaymentRail.Audit.Log
import PaymentRail.Policy.Velocity
import PaymentRail.Signer.Sign
import PaymentRail.Evm.Request
import PaymentRail.Evm.Broadcast
import PaymentRail.Evm.Nonces
import PaymentRail.Api.AtMostOnce
import PaymentRail.Ctl.Endpoints
import PaymentRail.Ctl.Clearance
import PaymentRail.Api.Listing
import PaymentRail.Pipeline.Order
import PaymentRail.Pipeline.Delivery
import PaymentRail.Webhook.Progress
import PaymentRail.Webhook.Terminal
import PaymentRail.Webhook.FanOut
import PaymentRail.Reconcile.Reserves
import PaymentRail.Webhook.Posts
