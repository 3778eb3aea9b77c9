import Bauth.Jobs.Purge
import Bauth.Transaction.Alone

/-!
# The batches of the purge

`Purge.inBatches` repeats a `DELETE … LIMIT 1000` until a batch comes back short. Alone, it ends
once every row of the table's rule is deleted, and counts them.
-/

namespace Bauth

open Transaction
open Program (Env wp_bind wp_query wp_select wp_start wp_finish wp_ret Point)

namespace Purge

section Table

variable {ρ : Type} {t : Database → List ρ} {key : ρ → Uuid} {rule : Time → ρ → Bool}
  {del : Uuid → Database → Database} {env : Env sig} {process : ℕ}
  {db w : Database} {events : List Event} {ids : List Uuid}

/-- The identifiers of the rows that meet the rule of a table. -/
def select (t : Database → List ρ) (key : ρ → Uuid) (rule : Time → ρ → Bool) (now : Time)
    (d : Database) : List Uuid :=
  ((t d).filter (rule now)).map key

/-- The table holds a row of this identifier. -/
def present (t : Database → List ρ) (key : ρ → Uuid) (d : Database) (id : Uuid) : Bool :=
  (t d).any fun r => key r = id

/-- The rows of these identifiers deleted, one after the other. -/
def swept (del : Uuid → Database → Database) (ids : List Uuid) (d : Database) : Database :=
  ids.foldl (fun d id => del id d) d

@[simp] lemma swept_nil (d : Database) : swept del [] d = d := rfl

@[simp] lemma swept_cons (id : Uuid) (d : Database) :
    swept del (id :: ids) d = swept del ids (del id d) := rfl

lemma swept_append (ids' : List Uuid) (d : Database) :
    swept del (ids ++ ids') d = swept del ids' (swept del ids d) :=
  List.foldl_append

/-- `del` deletes from the table the row of its identifier, and no other. -/
def Deletes (t : Database → List ρ) (key : ρ → Uuid) (del : Uuid → Database → Database) : Prop :=
  ∀ id d, t (del id d) = (t d).filter fun r => key r ≠ id

lemma Deletes.rows_swept (hdel : Deletes t key del) (ids : List Uuid) (d : Database) :
    t (swept del ids d) = (t d).filter fun r => key r ∉ ids := by
  induction ids generalizing d with
  | nil => simp
  | cons id ids ih =>
    rw [swept_cons, ih, hdel, List.filter_filter]
    refine List.filter_congr fun r _ => ?_
    simp [not_or, Bool.and_comm]

lemma nodup_select {now : Time} {d : Database} (hids : ((t d).map key).Nodup) :
    (select t key rule now d).Nodup :=
  hids.sublist (List.filter_sublist.map key)

/-- What is left to delete after the first rows of the rule. -/
lemma Deletes.select_swept (hdel : Deletes t key del) {d : Database}
    (hids : ((t d).map key).Nodup) (now : Time) (n : ℕ) :
    select t key rule now (swept del ((select t key rule now d).take n) d) =
      (select t key rule now d).drop n := by
  have hdrop : ∀ l : List Uuid, l.Nodup → l.filter (fun id => id ∉ l.take n) = l.drop n := by
    intro l hl
    have hsplit : l = l.take n ++ l.drop n := (List.take_append_drop n l).symm
    have hdisjoint := List.disjoint_take_drop hl (le_refl n)
    conv_lhs => enter [2]; rw [hsplit]
    rw [List.filter_append, List.filter_eq_nil_iff.mpr (by simp), List.nil_append,
      List.filter_eq_self]
    intro id hid
    simpa using fun h => hdisjoint h hid
  rw [← hdrop _ (nodup_select hids)]
  let gone := (select t key rule now d).take n
  change select t key rule now (swept del gone d) =
    (select t key rule now d).filter fun id => id ∉ gone
  simp only [select, hdel.rows_swept, List.filter_filter, List.filter_map]
  congr 1
  exact List.filter_congr fun r _ => by simp [Bool.and_comm]

lemma Deletes.nodup_swept (hdel : Deletes t key del) (hids : ((t w).map key).Nodup)
    (ids : List Uuid) : ((t (swept del ids w)).map key).Nodup := by
  rw [hdel.rows_swept]
  exact hids.sublist (List.filter_sublist.map key)

/-! ### One batch -/

/-- Rows that are there are deleted and counted. -/
lemma wp_deleteEach (hdel : Deletes t key del) {Q : ℕ → Point sig → Prop}
    (hids : ids.Nodup) (hpresent : ∀ id ∈ ids, present t key w id)
    (hQ : Q ids.length ⟨db, some (swept del ids w), events⟩) :
    (deleteEach (present t key) del ids).wp env process ⟨db, some w, events⟩ Q := by
  induction ids generalizing w Q with
  | nil => exact hQ
  | cons id ids ih =>
    obtain ⟨hid, hids⟩ := List.nodup_cons.mp hids
    simp only [deleteEach, wp_bind, wp_query]
    intro i
    have hrow : (deleteRow (present t key) del id).run env.now ⟨process, i⟩
        (Point.view ⟨db, some w, events⟩) = (del id, true) :=
      if_pos (hpresent id (by simp))
    rw [hrow]
    refine ih hids (fun id' hid' => ?_) hQ
    have hthere := hpresent id' (by simp [hid'])
    simp only [present, List.any_eq_true, decide_eq_true_eq] at hthere
    obtain ⟨r, hr, rfl⟩ := hthere
    simp only [present, hdel id w, List.any_eq_true, decide_eq_true_eq]
    refine ⟨r, List.mem_filter.mpr ⟨hr, ?_⟩, rfl⟩
    simpa using fun h : key r = id => hid (h ▸ hid')

/-- A batch deletes the first rows of the rule, a thousand at most. -/
lemma wp_deleteBatch (hdel : Deletes t key del) {Q : ℕ → Point sig → Prop}
    (hids : ((t w).map key).Nodup)
    (hQ : Q (min batchSize (select t key rule env.now w).length)
      ⟨swept del ((select t key rule env.now w).take batchSize) w, none, events⟩) :
    (deleteBatch (select t key rule) (present t key) del).wp env process ⟨w, none, events⟩ Q := by
  simp only [deleteBatch, wp_bind, wp_start, wp_select]
  refine wp_deleteEach hdel ((nodup_select hids).sublist (List.take_sublist _ _)) ?_ ?_
  · intro id hid
    obtain ⟨r, hr, rfl⟩ := List.mem_map.mp (List.mem_of_mem_take hid)
    exact List.any_eq_true.mpr ⟨r, (List.mem_filter.mp hr).1, by simp⟩
  · simpa [wp_finish] using hQ

/-! ### The loop -/

/-- The batches of a table delete every row of its rule and count them. -/
lemma wp_inBatches (hdel : Deletes t key del) {Q : Option ℕ → Point sig → Prop}
    (hids : ((t w).map key).Nodup) {fuel total : ℕ}
    (hfuel : (select t key rule env.now w).length < fuel * batchSize)
    (hQ : Q (some (total + (select t key rule env.now w).length))
      ⟨swept del (select t key rule env.now w) w, none, events⟩) :
    (inBatches (deleteBatch (select t key rule) (present t key) del) fuel total).wp env process
      ⟨w, none, events⟩ Q := by
  induction fuel generalizing w total with
  | zero => simp at hfuel
  | succ fuel ih =>
    let ids := select t key rule env.now w
    simp only [inBatches, wp_bind]
    refine wp_deleteBatch hdel hids ?_
    by_cases hshort : min batchSize ids.length < batchSize
    · -- the last batch takes all that is left
      have hle : ids.length ≤ batchSize := by omega
      rw [if_pos hshort]
      change Q (some (total + min batchSize ids.length)) ⟨swept del (ids.take batchSize) w, none, _⟩
      rw [List.take_of_length_le hle, Nat.min_eq_right hle]
      exact hQ
    · have hlong : batchSize ≤ ids.length := by omega
      have hrest : select t key rule env.now (swept del (ids.take batchSize) w) =
          ids.drop batchSize := hdel.select_swept hids env.now batchSize
      have hlength : (ids.drop batchSize).length = ids.length - batchSize := List.length_drop
      rw [if_neg hshort]
      refine ih (hdel.nodup_swept hids _) ?_ ?_
      · rw [hrest, hlength]
        have := hfuel
        rw [Nat.succ_mul] at this
        change ids.length < _ at this
        omega
      · rw [hrest, hlength, ← swept_append, List.take_append_drop]
        have hcount : total + min batchSize ids.length + (ids.length - batchSize) =
            total + ids.length := by omega
        rw [hcount]
        exact hQ

end Table

end Purge

end Bauth
