import Rmrk.Properties.Acceptance
import Rmrk.Properties.Approval
import Rmrk.Properties.Atomicity
import Rmrk.Properties.Authority
import Rmrk.Properties.Births
import Rmrk.Properties.Burns
import Rmrk.Properties.Caps
import Rmrk.Properties.Charters
import Rmrk.Properties.Composition
import Rmrk.Properties.Consent
import Rmrk.Properties.CycleGuard
import Rmrk.Properties.Delivery
import Rmrk.Properties.DirectMint
import Rmrk.Properties.Equippability
import Rmrk.Properties.Escrow
import Rmrk.Properties.Forest
import Rmrk.Properties.Funds
import Rmrk.Properties.Guards
import Rmrk.Properties.History
import Rmrk.Properties.Identifiers
import Rmrk.Properties.Index
import Rmrk.Properties.Indexer
import Rmrk.Properties.Isolation
import Rmrk.Properties.Ledgers
import Rmrk.Properties.Locks
import Rmrk.Properties.Lost
import Rmrk.Properties.Moorings
import Rmrk.Properties.Newborn
import Rmrk.Properties.Order
import Rmrk.Properties.Parts
import Rmrk.Properties.Priorities
import Rmrk.Properties.Proposals
import Rmrk.Properties.Protocol
import Rmrk.Properties.Refunds
import Rmrk.Properties.Rejection
import Rmrk.Properties.Reroot
import Rmrk.Properties.Resources
import Rmrk.Properties.Rights
import Rmrk.Properties.RootConsent
import Rmrk.Properties.Settlement
import Rmrk.Properties.Slots
import Rmrk.Properties.Soundness
import Rmrk.Properties.Supply
import Rmrk.Properties.Termination
import Rmrk.Properties.Themes
import Rmrk.Properties.Title
import Rmrk.Properties.Toggle
import Rmrk.Properties.Transfers
import Rmrk.Properties.Unwinding
import Rmrk.Properties.VirtualAccounts
import Rmrk.Properties.Ways
