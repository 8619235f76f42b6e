import QadsCafe.L2Detail.Screen
import QadsCafe.L4App.Steps
import QadsCafe.L4App.Invariant
import QadsCafe.L4App.Refs
import QadsCafe.L5Runs.NoLostItem
import QadsCafe.L5Runs.NoDuplicate
import QadsCafe.L2Detail.Session
import QadsCafe.Core.Dictionary
import QadsCafe.L3Order.Encoding
import QadsCafe.L4App.Baskets
import QadsCafe.L5Runs.Outlets
import QadsCafe.L5Runs.Totals
import QadsCafe.L5Runs.Reconcile
import QadsCafe.L4App.Replies
import QadsCafe.L5Runs.SingleCheckout
import QadsCafe.L5Runs.Completion
import QadsCafe.L5Runs.Credit
import QadsCafe.L5Runs.Relaunch
import QadsCafe.L5Runs.Accounts
import QadsCafe.L4App.Past
import QadsCafe.L5Runs.History
import QadsCafe.L4App.Items
import QadsCafe.L5Runs.Deletion
import QadsCafe.L5Runs.CarryOver
import QadsCafe.Core.Radio
import QadsCafe.L2Detail.Selection
import QadsCafe.L5Runs.Orderable
import QadsCafe.L4App.SignIn
import QadsCafe.L4App.SignInSteps
import QadsCafe.L5Runs.Profiles
import QadsCafe.L5Runs.Unwraps
import QadsCafe.L5Runs.Topics
import QadsCafe.L5Runs.Identity
import QadsCafe.Core.Replicas
import QadsCafe.L4App.Sync
import QadsCafe.L5Runs.Fleet
import QadsCafe.L2Detail.Calls
import QadsCafe.L2Detail.Taps
import QadsCafe.Core.Stepper
import QadsCafe.L2Detail.Steppers
import QadsCafe.L4App.BasketScreen
import QadsCafe.L5Runs.Units
import QadsCafe.L1Menu.ImageView
import QadsCafe.L2Detail.Malformed
import QadsCafe.Core.Sampling
import QadsCafe.L1Menu.Allergens
import QadsCafe.L4App.Nonce
import QadsCafe.Core.Sorting
import QadsCafe.L1Menu.Categories
import QadsCafe.L1Menu.ItemList
import QadsCafe.L1Menu.Tab
import QadsCafe.L2Detail.Opening
import QadsCafe.L4App.Menus
import QadsCafe.L5Runs.Browsing
import QadsCafe.Core.Decimal
import QadsCafe.L2Detail.Labels
import QadsCafe.Core.View
import QadsCafe.L2Detail.Display
import QadsCafe.L5Runs.BasketRows
import QadsCafe.Core.Hex
import QadsCafe.Core.Ranking
import QadsCafe.L4App.AppleSignIn
import QadsCafe.L5Runs.Crashes
import QadsCafe.L5Runs.Drain
import QadsCafe.L5Runs.Finality
import QadsCafe.Core.Purge
import QadsCafe.L5Runs.Separation
import QadsCafe.L5Runs.Failures
import QadsCafe.Core.Tokens
import QadsCafe.L5Runs.Devices
import QadsCafe.L5Runs.Provenance
