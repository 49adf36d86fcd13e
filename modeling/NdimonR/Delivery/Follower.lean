import NdimonR.Decoder.Config

/-! What control relies on of a follower: a process that answers requests, writes a snapshot of
what it accepted, and may start again from the snapshot or from nothing. -/

namespace NdimonR.Delivery

open Json Decoder

universe u

def statusRequest : Json := .obj [("action", .str "status")]

def applyRequest (revision : Nat) (config : SortedMap String Json) (reset : Bool) : Json :=
  .obj ([("action", .str "apply_config"), ("config", .obj config.entries)] ++
    (if reset then [("reset", .bool true)] else []) ++ [("revision", .int revision)])

/-- What a follower answers when asked for a revision older than the one it has applied. -/
def olderRevision : String := "revision: older than last applied revision"

def failure (errors : List String) : Json :=
  .obj [("errors", .arr (errors.map .str)), ("ok", .bool false)]

def isOk (reply : Json) : Bool := get "ok" reply == some (.bool true)

def revisionStatus (r : Revision) : Json := if r.applied then .int r.value else .null

/-- The reply to a request, the state after it, and the snapshot it writes. -/
structure Answered (σ : Type) where
  reply : Json
  next : σ
  snapshot : Option Json := none

/-- `Env` is what the surroundings of the process decide, `Op` what it does on its own. -/
structure Follower (σ : Type) where
  Env : Type
  Op : Type
  start : σ
  revision : σ → Revision
  document : σ → String → Option Json
  answer : Env → Json → σ → Answered σ
  operate : Op → σ → σ
  restore : Json → σ
  /-- The content of a request is one the follower takes. -/
  accepts : Env → SortedMap String Json → Prop

namespace Follower

variable {σ : Type} (F : Follower σ)

/-- Both show control the same. -/
structure Alike (s t : σ) : Prop where
  revision : F.revision t = F.revision s
  document : ∀ k, F.document t k = F.document s k

/-- The follower shows this content at this revision. -/
structure Shows (revision : Nat) (config : SortedMap String Json) (s : σ) : Prop where
  revision : F.revision s = ⟨true, revision⟩
  document : ∀ k j, config.get? k = some j → F.document s k = some j

theorem Alike.refl (s : σ) : F.Alike s s := ⟨rfl, fun _ => rfl⟩

theorem Alike.trans {s t u : σ} (hst : F.Alike s t) (htu : F.Alike t u) : F.Alike s u :=
  ⟨htu.revision.trans hst.revision, fun k => (htu.document k).trans (hst.document k)⟩

theorem Shows.alike {revision : Nat} {config : SortedMap String Json} {s t : σ}
    (h : F.Shows revision config s) (ht : F.Alike s t) : F.Shows revision config t where
  revision := ht.revision.trans h.revision
  document k j hk := (ht.document k).trans (h.document k j hk)

def older (revision : Nat) (reset : Bool) (s : σ) : Bool :=
  (F.revision s).applied && decide (revision < (F.revision s).value) && !reset

theorem older_iff {revision : Nat} {reset : Bool} {s : σ} :
    F.older revision reset s = true ↔
      (F.revision s).applied = true ∧ revision < (F.revision s).value ∧ reset = false := by
  simp [older, and_assoc]

/-- What control relies on. `Inv` holds of the process, `Saved` of the snapshot it has written. -/
structure Laws (Inv : σ → Prop) (Saved : Json → Prop) : Prop where
  start : Inv F.start
  operate : ∀ op s, Inv s → Inv (F.operate op s) ∧ F.Alike s (F.operate op s)
  status : ∀ env s, (F.answer env statusRequest s).next = s ∧
    (F.answer env statusRequest s).snapshot = none ∧
    get "revision" (F.answer env statusRequest s).reply = some (revisionStatus (F.revision s))
  bounded : ∀ s, Inv s → (F.revision s).value < 2 ^ 64
  older : ∀ env revision config reset s, Inv s → F.older revision reset s = true →
    isOk (F.answer env (applyRequest revision config reset) s).reply = false ∧
      (F.accepts env config → (F.answer env (applyRequest revision config reset) s).reply =
        failure [olderRevision])
  refused : ∀ env revision config reset s,
    isOk (F.answer env (applyRequest revision config reset) s).reply = false →
      (F.answer env (applyRequest revision config reset) s).next = s ∧
      (F.answer env (applyRequest revision config reset) s).snapshot = none
  accepted : ∀ env revision config reset s, Inv s →
    isOk (F.answer env (applyRequest revision config reset) s).reply = true →
      Inv (F.answer env (applyRequest revision config reset) s).next ∧
      F.Shows revision config (F.answer env (applyRequest revision config reset) s).next ∧
      get "revision" (F.answer env (applyRequest revision config reset) s).reply =
        some (.int revision) ∧
      ∃ j, (F.answer env (applyRequest revision config reset) s).snapshot = some j ∧ Saved j ∧
        F.Alike (F.answer env (applyRequest revision config reset) s).next (F.restore j)
  taken : ∀ env revision config reset s, F.accepts env config → revision < 2 ^ 64 →
    F.older revision reset s = false →
      isOk (F.answer env (applyRequest revision config reset) s).reply = true ∧
        get "refused" (F.answer env (applyRequest revision config reset) s).reply = none
  restore : ∀ j, Saved j → Inv (F.restore j)

end Follower

end NdimonR.Delivery
