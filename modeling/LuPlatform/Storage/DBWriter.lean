import LuPlatform.Library.Counters
import Mathlib.Data.List.Induction

/-! The writer of the database layer. It opens one transaction when it is made and commits that one
after each batch. -/

namespace LuPlatform.Storage

/-- What the writer uses of `soci::transaction`: one is begun by its constructor, and `commit` may
throw. -/
structure Soci (T : Type) where
  begin : T
  commit : T → Except String T

/-- A transaction can be committed once, and throws on a second commit. -/
structure Soci.OneShot {T : Type} (soci : Soci T) (handled : T) (message : String) : Prop where
  first : soci.commit soci.begin = .ok handled
  second : soci.commit handled = .error message

structure DBWriter (T O : Type) where
  transaction : T
  bulkWriteThreshold : BitVec 32
  writeCount : BitVec 32 := 0
  /-- The objects that were written, and those whose transaction was committed. -/
  stored : List O := []
  committed : List O := []

namespace DBWriter

variable {T O : Type} (soci : Soci T)

def new (bulkWriteThreshold : BitVec 32) : DBWriter T O :=
  { transaction := soci.begin, bulkWriteThreshold }

/-- The insert was successful. -/
def written (w : DBWriter T O) (object : O) : DBWriter T O :=
  { w with stored := w.stored ++ [object], writeCount := w.writeCount + 1 }

/-- What `writeToDB` throws is caught here, what `commit` throws is not. -/
def store (w : DBWriter T O) (object : O) (writeToDB : Except String Unit) :
    Except String Bool × DBWriter T O :=
  match writeToDB with
  | .error _ => (.ok false, w)
  | .ok () =>
    if (w.written object).writeCount = w.bulkWriteThreshold then
      match soci.commit w.transaction with
      | .ok transaction =>
        (.ok true, { w.written object with
          transaction
          writeCount := 0
          committed := (w.written object).stored })
      | .error message => (.error message, w.written object)
    else
      (.ok true, w.written object)

/-- Calls of `store` one after the other, with successful inserts. -/
def storeAll (w : DBWriter T O) (objects : List O) : DBWriter T O :=
  objects.foldl (fun w object => (store soci w object (.ok ())).2) w

/-- What each call of `store` in a run does: it returns, the count stays below the threshold, and at
the end of a batch everything is committed. -/
def CommitsEveryBatch (bulkWriteThreshold : BitVec 32) (objects : List O) : Prop :=
  ∀ before object after, objects = before ++ object :: after →
    let called := store soci (storeAll soci (new soci bulkWriteThreshold) before) object (.ok ())
    called.1 = .ok true ∧ called.2.writeCount < bulkWriteThreshold ∧
      called.2.stored = before ++ [object] ∧
      ((before.length + 1) % bulkWriteThreshold.toNat = 0 → called.2.committed = called.2.stored)

variable {soci} {handled : T} {message : String} {bulkWriteThreshold : BitVec 32}

theorem storeAll_concat (w : DBWriter T O) (objects : List O) (object : O) :
    storeAll soci w (objects ++ [object]) =
      (store soci (storeAll soci w objects) object (.ok ())).2 := by
  rw [storeAll, List.foldl_append]
  rfl

/-- A call in the middle of a batch. -/
theorem store_within {w : DBWriter T O} (h : w.writeCount + 1 ≠ w.bulkWriteThreshold) (object : O) :
    store soci w object (.ok ()) = (.ok true, w.written object) :=
  if_neg h

theorem store_commit {w : DBWriter T O} (h : w.writeCount + 1 = w.bulkWriteThreshold) {transaction : T}
    (hcommit : soci.commit w.transaction = .ok transaction) (object : O) :
    store soci w object (.ok ()) = (.ok true, { w.written object with
      transaction
      writeCount := 0
      committed := w.stored ++ [object] }) := by
  have hfull : (w.written object).writeCount = w.bulkWriteThreshold := h
  simp only [store, hfull, if_true, hcommit]
  rfl

theorem store_throws {w : DBWriter T O} (h : w.writeCount + 1 = w.bulkWriteThreshold)
    (hcommit : soci.commit w.transaction = .error message) (object : O) :
    store soci w object (.ok ()) = (.error message, w.written object) := by
  have hfull : (w.written object).writeCount = w.bulkWriteThreshold := h
  simp only [store, hfull, if_true, hcommit]

/-- The writer in its first and in its second batch. -/
def after (soci : Soci T) (handled : T) (bulkWriteThreshold : BitVec 32) (objects : List O) :
    DBWriter T O :=
  if objects.length < bulkWriteThreshold.toNat then
    ⟨soci.begin, bulkWriteThreshold, BitVec.ofNat 32 objects.length, objects, []⟩
  else
    ⟨handled, bulkWriteThreshold, BitVec.ofNat 32 (objects.length - bulkWriteThreshold.toNat),
      objects, objects.take bulkWriteThreshold.toNat⟩

/-- The call that fills a batch. -/
theorem ofNat_add_one_eq_iff {n : Nat} (h : n < bulkWriteThreshold.toNat) :
    BitVec.ofNat 32 n + 1 = bulkWriteThreshold ↔ n + 1 = bulkWriteThreshold.toNat := by
  have hlt := bulkWriteThreshold.isLt
  have hone : BitVec.ofNat 32 n + 1 = BitVec.ofNat 32 (n + 1) := (BitVec.ofNat_add n 1).symm
  rw [hone, ← BitVec.toNat_inj, BitVec.toNat_ofNat, Nat.mod_eq_of_lt (by omega)]

theorem store_after (hsoci : soci.OneShot handled message) (objects : List O) (object : O)
    (hcalls : objects.length + 1 < 2 * bulkWriteThreshold.toNat) :
    store soci (after soci handled bulkWriteThreshold objects) object (.ok ()) =
      (.ok true, after soci handled bulkWriteThreshold (objects ++ [object])) := by
  by_cases hfirst : objects.length < bulkWriteThreshold.toNat
  · have hafter : after soci handled bulkWriteThreshold objects =
        ⟨soci.begin, bulkWriteThreshold, BitVec.ofNat 32 objects.length, objects, []⟩ := if_pos hfirst
    by_cases hfull : objects.length + 1 = bulkWriteThreshold.toNat
    · have hcount := (ofNat_add_one_eq_iff hfirst).2 hfull
      rw [hafter, store_commit hcount hsoci.first, after, if_neg (by simp [hfull]), ← hfull]
      simp [written, List.take_of_length_le]
    · have hcount := mt (ofNat_add_one_eq_iff hfirst).1 hfull
      rw [hafter, store_within hcount, after, if_pos (by rw [List.length_append]; simp; omega)]
      simp [written, BitVec.ofNat_add]
  · have hafter : after soci handled bulkWriteThreshold objects =
        ⟨handled, bulkWriteThreshold, BitVec.ofNat 32 (objects.length - bulkWriteThreshold.toNat),
          objects, objects.take bulkWriteThreshold.toNat⟩ := if_neg hfirst
    have hsecond : objects.length - bulkWriteThreshold.toNat < bulkWriteThreshold.toNat := by omega
    have hcount := mt (ofNat_add_one_eq_iff (n := objects.length - bulkWriteThreshold.toNat) hsecond).1
      (by omega)
    rw [hafter, store_within hcount, after, if_neg (by rw [List.length_append]; omega)]
    have hnext : (objects ++ [object]).length - bulkWriteThreshold.toNat =
        objects.length - bulkWriteThreshold.toNat + 1 := by
      rw [List.length_append, List.length_singleton]
      omega
    rw [hnext, List.take_append_of_le_length (by omega), BitVec.ofNat_add]
    rfl

/-- The call that fills the second batch commits the transaction again. -/
theorem store_after_throws (hsoci : soci.OneShot handled message) (hthreshold : 0 < bulkWriteThreshold)
    {objects : List O} (object : O) (hcalls : objects.length + 1 = 2 * bulkWriteThreshold.toNat) :
    (store soci (after soci handled bulkWriteThreshold objects) object (.ok ())).1 =
      .error message := by
  have hpositive : 0 < bulkWriteThreshold.toNat := by simpa [BitVec.lt_def] using hthreshold
  have hafter : after soci handled bulkWriteThreshold objects =
      ⟨handled, bulkWriteThreshold, BitVec.ofNat 32 (objects.length - bulkWriteThreshold.toNat),
        objects, objects.take bulkWriteThreshold.toNat⟩ := if_neg (by omega)
  have hsecond : objects.length - bulkWriteThreshold.toNat < bulkWriteThreshold.toNat := by omega
  have hcount := (ofNat_add_one_eq_iff hsecond).2 (by omega)
  rw [hafter, store_throws hcount hsoci.second]

theorem storeAll_eq (hsoci : soci.OneShot handled message) (hthreshold : 0 < bulkWriteThreshold)
    {objects : List O} (hcalls : objects.length < 2 * bulkWriteThreshold.toNat) :
    storeAll soci (new soci bulkWriteThreshold) objects =
      after soci handled bulkWriteThreshold objects := by
  induction objects using List.reverseRecOn with
  | nil => exact (if_pos (by simpa [BitVec.lt_def] using hthreshold)).symm
  | append_singleton objects object ih =>
    rw [List.length_append, List.length_singleton] at hcalls
    rw [storeAll_concat, ih (by omega), store_after hsoci objects object hcalls]

theorem after_writeCount_lt {objects : List O}
    (hcalls : objects.length < 2 * bulkWriteThreshold.toNat) :
    (after soci handled bulkWriteThreshold objects).writeCount < bulkWriteThreshold := by
  have hlt := bulkWriteThreshold.isLt
  unfold after
  split
  · rw [BitVec.lt_def, BitVec.toNat_ofNat, Nat.mod_eq_of_lt (by omega)]
    assumption
  · rw [BitVec.lt_def, BitVec.toNat_ofNat, Nat.mod_eq_of_lt (by omega)]
    omega

theorem after_stored (objects : List O) :
    (after soci handled bulkWriteThreshold objects).stored = objects := by
  unfold after
  split <;> rfl

/-- At the end of the first batch everything is committed. -/
theorem after_committed {objects : List O} (hcalls : objects.length < 2 * bulkWriteThreshold.toNat)
    (hpositive : 0 < objects.length) (hbatch : objects.length % bulkWriteThreshold.toNat = 0) :
    (after soci handled bulkWriteThreshold objects).committed = objects := by
  have hfull : objects.length = bulkWriteThreshold.toNat := by
    obtain ⟨batches, hbatches⟩ := Nat.dvd_of_mod_eq_zero hbatch
    have hone : batches = 1 := by
      rcases Nat.lt_trichotomy batches 1 with hlt | heq | hgt
      · obtain rfl : batches = 0 := by omega
        omega
      · exact heq
      · have hle := Nat.mul_le_mul_left bulkWriteThreshold.toNat hgt
        omega
    rw [hbatches, hone, Nat.mul_one]
  rw [after, if_neg (by omega), ← hfull]
  exact List.take_length

/-- Where a transaction can be committed once only, a run of stores commits every batch if and only
if it ends before the second batch does. -/
theorem commits_every_batch_iff (hsoci : soci.OneShot handled message)
    (hthreshold : 0 < bulkWriteThreshold) (objects : List O) :
    CommitsEveryBatch soci bulkWriteThreshold objects ↔
      objects.length < 2 * bulkWriteThreshold.toNat := by
  constructor
  · intro h
    by_contra hlong
    have hpositive : 0 < bulkWriteThreshold.toNat := by simpa [BitVec.lt_def] using hthreshold
    -- the call that ends the second batch
    have hsplit : objects = objects.take (2 * bulkWriteThreshold.toNat - 1) ++
        objects.get ⟨2 * bulkWriteThreshold.toNat - 1, by omega⟩ ::
          objects.drop (2 * bulkWriteThreshold.toNat - 1 + 1) := by
      rw [List.get_eq_getElem, ← List.drop_eq_getElem_cons, List.take_append_drop]
    have hlength : (objects.take (2 * bulkWriteThreshold.toNat - 1)).length =
        2 * bulkWriteThreshold.toNat - 1 := by
      rw [List.length_take]
      omega
    obtain ⟨hreturns, -⟩ := h _ _ _ hsplit
    rw [storeAll_eq hsoci hthreshold (by omega),
      store_after_throws hsoci hthreshold _ (by omega)] at hreturns
    exact absurd hreturns (by simp)
  · rintro hcalls before object rest rfl
    rw [List.length_append, List.length_cons] at hcalls
    have hlength : (before ++ [object]).length = before.length + 1 := by simp
    rw [storeAll_eq hsoci hthreshold (by omega), store_after hsoci before object (by omega)]
    refine ⟨rfl, after_writeCount_lt (by omega), after_stored _, fun hbatch => ?_⟩
    rw [← hlength] at hbatch
    rw [after_stored]
    apply after_committed _ _ hbatch <;> omega

/-- A transaction that remembers whether it was handled. -/
def handledOnce : Soci Bool where
  begin := false
  commit handled := if handled then .error "Cannot commit, transaction already handled." else .ok true

theorem handledOnce_oneShot :
    handledOnce.OneShot true "Cannot commit, transaction already handled." :=
  ⟨rfl, rfl⟩

theorem commits_one_batch : CommitsEveryBatch handledOnce 2 ["first", "second", "third"] :=
  (commits_every_batch_iff handledOnce_oneShot (by decide) _).2 (by decide)

/-- With a threshold of two the fourth object is the last one, and its `store` throws. -/
theorem fourth_store_throws :
    (store handledOnce
      (storeAll handledOnce (new handledOnce 2) ["first", "second", "third"]) "fourth" (.ok ())).1 =
        .error "Cannot commit, transaction already handled." ∧
      ¬ CommitsEveryBatch handledOnce 2 ["first", "second", "third", "fourth"] := by
  refine ⟨rfl, fun h => ?_⟩
  obtain ⟨hreturns, -⟩ := h ["first", "second", "third"] "fourth" [] rfl
  exact absurd hreturns (by simp [storeAll, store, written, new, handledOnce])

end DBWriter

end LuPlatform.Storage
