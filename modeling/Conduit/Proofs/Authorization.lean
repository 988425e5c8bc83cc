import Conduit.Proofs.Journal
import Conduit.Stage

/-!
# Authorization of nodes

What a stage has made sure of once it has authorized a node, and what follows for a whole lineage:
every stage walks the ancestors of a node with a loop of its own, and all these loops authorize
each ancestor (`authorize_ok`).
-/

namespace Conduit

open Journaled

namespace Context

/-- What lets a stage read a node.  Lists are free of access entries: their elements are checked
on their own. -/
structure Clears (ctx : Context) (id : NodeId) : Prop where
  readable : (ctx.catalog.node id).readable = true
  system : (ctx.catalog.node id).readAccess = .system → ctx.options.allowSystemAccess = true
  untargeted : (ctx.catalog.node id).type ≠ .list → (ctx.catalog.node id).acl ≠ some .untargeted
  targeted : (ctx.catalog.node id).type ≠ .list →
    ∀ level, (ctx.catalog.node id).acl = some (.targeted level) → ctx.policy.grants level = true

/-- The level of a node without access entries is among what `access` allows. -/
def Counts (ctx : Context) (access : AccessLevel) (id : NodeId) : Prop :=
  (ctx.catalog.node id).type ≠ .list → (ctx.catalog.node id).acl = none →
    (ctx.catalog.node id).readAccess ≤ access

variable {low high : AccessLevel} {id : NodeId} {counts : Bool} {notes : List Event}
  {ids : List NodeId}

lemma Counts.mono {ctx : Context} (h : ctx.Counts low id) (hle : low ≤ high) : ctx.Counts high id :=
  fun ht ha => AccessLevel.le_trans (h ht ha) hle

variable {ctx : Context}

lemma authorizeEntries_ok {n : Node} (hacl : ctx.skipAcl = false)
    (h : ctx.authorizeEntries n counts = ⟨.ok (), notes⟩) :
    n.type = .list ∨ (n.acl = none ∧ (counts = true → n.readAccess ≤ requiredAccess notes)) ∨
      ∃ level, n.acl = some (.targeted level) ∧ ctx.policy.grants level = true := by
  unfold authorizeEntries at h
  simp only [hacl, Bool.false_or, beq_iff_eq] at h
  split at h
  · next ht => exact .inl ht
  · split at h
    · cases h
    · next level ha =>
      split at h
      · next hg => exact .inr (.inr ⟨level, ha, hg⟩)
      · cases h
    · next ha =>
      refine .inr (.inl ⟨ha, fun hc => ?_⟩)
      simp only [hc, if_true, Journaled.note_eq, Journaled.mk.injEq, true_and] at h
      rw [← h, requiredAccess_needs]
      exact AccessLevel.le_refl _

/-- **An authorized node is one the stage may read**, and its level counts where it should. -/
lemma authorize_ok (hacl : ctx.skipAcl = false) (h : ctx.authorize id counts = ⟨.ok (), notes⟩) :
    ctx.Clears id ∧ (counts = true → ctx.Counts (requiredAccess notes) id) := by
  unfold authorize at h
  simp only [guard_ok_iff, bind_ok_iff] at h
  obtain ⟨hread, _, m, n, hentries, ⟨hsystem, -⟩, rfl⟩ := h
  have hcases := authorizeEntries_ok hacl hentries
  refine ⟨⟨by simpa using hread, fun hs => ?_, fun ht ha => ?_, fun ht level ha => ?_⟩,
    fun hc ht ha => ?_⟩
  · simpa [hs] using hsystem
  · rcases hcases with h | ⟨h, -⟩ | ⟨level, h, -⟩
    · exact ht h
    · simp [h] at ha
    · simp [h] at ha
  · rcases hcases with h | ⟨h, -⟩ | ⟨level', h, hg⟩
    · exact absurd h ht
    · simp [h] at ha
    · rw [ha] at h
      cases h
      exact hg
  · rcases hcases with h | ⟨-, h⟩ | ⟨level, h, -⟩
    · exact absurd h ht
    · exact AccessLevel.le_trans (h hc) (requiredAccess_le_append_left _ _)
    · simp [ha] at h

/-- All of `ids` may be read, and their levels count where they should. -/
def ClearsAll (ctx : Context) (counts : Bool) (access : AccessLevel) (ids : List NodeId) : Prop :=
  ∀ id ∈ ids, ctx.Clears id ∧ (counts = true → ctx.Counts access id)

lemma ClearsAll.mono (h : ctx.ClearsAll counts low ids) (hle : low ≤ high) :
    ctx.ClearsAll counts high ids :=
  fun id hid => ⟨(h id hid).1, fun hc => ((h id hid).2 hc).mono hle⟩

/-- **A lineage that is checked is cleared.**  The further checks of a round play no part. -/
lemma checkLineage_ok {refuses : NodeId → Bool} {fault : String → Fault} {path : String}
    (hacl : ctx.skipAcl = false)
    (h : ctx.checkLineage counts refuses fault path ids = ⟨.ok (), notes⟩) :
    ctx.ClearsAll counts (requiredAccess notes) ids := by
  induction ids generalizing notes with
  | nil => exact nofun
  | cons id rest ih =>
    simp only [checkLineage, guard_ok_iff, bind_ok_iff] at h
    obtain ⟨_, m, n, hid, ⟨-, hrest⟩, rfl⟩ := h
    intro other hother
    rcases List.mem_cons.1 hother with rfl | hother
    · have ⟨hclear, hcount⟩ := authorize_ok hacl hid
      exact ⟨hclear, fun hc => (hcount hc).mono (requiredAccess_le_append_left _ _)⟩
    · exact (ih hrest).mono (requiredAccess_le_append_right _ _) other hother

end Context

end Conduit
