import Handly.Auth.Effects
import Handly.Lib.Composition
import Handly.Orders.Knowledge
import Handly.Penalties
import Handly.Reviews.Statements
import Handly.Verifications.Statements

/-!
# The services over one database

What decides whether a master may work is written by several services: the admin's `suspend` and
`restore` write the user, the verification service and the trust tier write the profile, a
diagnosis the complexity of the order. Here they run side by side.

A table that several services use is kept once. The users stand in the tables of the auth
service, the profiles in those of the order service. A lock on a profile row is one lock, whoever
takes it.
-/

namespace Handly.Platform

open Interleaving

/-- The tables of all services. -/
structure Store where
  accounts : Auth.Db := {}
  /-- The tables of the order and dispatch services. The users are those of `accounts`. -/
  db : Handly.Db := {}
  verifications : List Verifications.Verification := []
  reviews : List Reviews.Review := []
  profileLock : UserId → Option ℕ := fun _ => none
  verificationLock : VerificationId → Option ℕ := fun _ => none
  reviewLock : OrderId → Option ℕ := fun _ => none

namespace Store

/-! ### What each service sees and writes -/

def ordersPart (s : Store) : Handly.Db :=
  { s.db with users := s.accounts.users.map fun u => { status := u.status, role := u.role } }

def setOrdersPart (part : Handly.Db) (s : Store) : Store := { s with db := part }

def setAccounts (part : Auth.Db) (s : Store) : Store := { s with accounts := part }

def verificationPart (s : Store) : Verifications.Db :=
  { masters := s.db.masters, verifications := s.verifications, notifications := s.db.notifications
    profileLock := s.profileLock, verificationLock := s.verificationLock }

def setVerificationPart (part : Verifications.Db) (s : Store) : Store :=
  { s with
    db := { s.db with masters := part.masters, notifications := part.notifications }
    verifications := part.verifications, profileLock := part.profileLock
    verificationLock := part.verificationLock }

def reviewsPart (s : Store) : Reviews.Db :=
  { s.ordersPart with
    reviews := s.reviews, reviewLock := s.reviewLock, profileLock := s.profileLock }

def setReviewsPart (part : Reviews.Db) (s : Store) : Store :=
  { s with
    db := part.toDb, reviews := part.reviews, reviewLock := part.reviewLock
    profileLock := part.profileLock }

end Store

/-! ### The components -/

inductive Component
  | orders | accounts | verification | reviews | penalties
  deriving DecidableEq

abbrev Component.Call : Component → Type
  | .orders => Handly.Call
  | .accounts => Auth.Call
  | .verification => Verifications.Call
  | .reviews => Reviews.Call
  | .penalties => Penalties.Call

abbrev Component.Input : Component → Type
  | .orders => Handly.Input
  | .accounts => Auth.Input
  | .verification => Verifications.Input
  | .reviews => Reviews.Input
  | .penalties => Penalties.Input

/-- A call of any component, and an input. -/
abbrev AnyCall := Σ c : Component, c.Call
abbrev AnyInput := Σ c : Component, c.Input

/-- A `suspend` or a `restore`. -/
def isSanction (k : Auth.Call) : Bool := k.op matches .suspend _ _ _ | .restore _ _

def component (env : Env) (aenv : Auth.Env) : ∀ c : Component, Machine Store c.Call c.Input
  | .orders => (orders env).onPart Store.ordersPart Store.setOrdersPart
  | .accounts => ((Auth.accounts aenv).restrict isSanction).onPart Store.accounts Store.setAccounts
  | .verification =>
      Verifications.verification.onPart Store.verificationPart Store.setVerificationPart
  | .reviews => Reviews.reviewing.onPart Store.reviewsPart Store.setReviewsPart
  | .penalties => Penalties.penalties.onPart Store.ordersPart Store.setOrdersPart

/-- The machine of all components. -/
def platform (env : Env) (aenv : Auth.Env) : Machine Store AnyCall AnyInput :=
  .sigma (component env aenv)

/-! ### Their statements -/

section Statements

variable {env : Env} {aenv : Auth.Env} {i : ℕ} {s : Store}

/-- A statement of the order and dispatch services over the tables of all. -/
theorem orders_cases {x : Handly.Input} {k : Handly.Call} {o : Outcome Store Handly.Call}
    (h : (component env aenv .orders).step i x k s = some o) :
    ∃ o', Stmt env i x s.ordersPart k o' ∧
      (x.fail = true → o' = k.goto (s.ordersPart.unlock i) (.threw .infrastructure)) ∧
      o = ⟨s.setOrdersPart o'.store, o'.call, o'.spawned⟩ := by
  obtain ⟨o', ho', rfl⟩ := Machine.onPart_step h
  obtain ⟨-, hstmt, hfails⟩ := step_cases ho'
  exact ⟨o', hstmt, hfails, rfl⟩

/-- The other components write no order, dispatch or order lock, and start no calls. -/
theorem component_frame {c : Component} (hc : c ≠ .orders) {x : c.Input} {k : c.Call}
    {o : Outcome Store c.Call} (h : (component env aenv c).step i x k s = some o) :
    o.store.db.orders = s.db.orders ∧ o.store.db.dispatches = s.db.dispatches ∧
      o.store.db.orderLock = s.db.orderLock ∧ o.spawned = [] := by
  cases c with
  | orders => exact absurd rfl hc
  | accounts =>
      obtain ⟨o', ho', rfl⟩ := Machine.onPart_step h
      exact ⟨rfl, rfl, rfl, (Auth.step_cases ho').spawned_eq_nil⟩
  | verification =>
      obtain ⟨o', ho', rfl⟩ := Machine.onPart_step h
      exact ⟨rfl, rfl, rfl, (Verifications.step_cases ho').2.spawned_eq_nil⟩
  | reviews =>
      obtain ⟨o', ho', rfl⟩ := Machine.onPart_step h
      obtain ⟨hstmt, -⟩ := Reviews.step_cases ho'
      obtain ⟨horders, hdispatches, hlock⟩ := hstmt.frame
      exact ⟨horders, hdispatches, hlock, hstmt.spawned_eq_nil⟩
  | penalties =>
      obtain ⟨o', ho', rfl⟩ := Machine.onPart_step h
      have hframe := Penalties.step_frame i ho'
      exact hframe

end Statements

end Handly.Platform
