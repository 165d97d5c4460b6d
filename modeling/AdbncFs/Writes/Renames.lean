import AdbncFs.Writes.Handles

/-!
# Renaming a file that is not pushed yet

`adbnc_rename` hands the pending mark and the local copy of the old name to the new name,
but not the mark for writing. `rename_flush_iff` says for which chains of renames the next
flush pushes the local copy of the first name.
-/

namespace AdbncFs

open Text Interaction

/-- The calls `a` to the first name, the first name to the second, and so on. -/
def renames : Str → List Str → List Callback
  | _, [] => []
  | a, b :: bs => .rename a b :: renames b bs

theorem renames_concat (a : Str) (bs : List Str) (b : Str) :
    renames a (bs ++ [b]) = renames a bs ++ [.rename ((a :: bs).getLast (by simp)) b] := by
  induction bs generalizing a with
  | nil => rfl
  | cons c bs ih =>
    rw [List.cons_append, renames, ih, renames, List.cons_append]
    rfl

section

variable {ε : Type} {env : Env ε} (g : Globals)

theorem localPath_ne_nil (p : Str) : g.localPath p ≠ [] := by
  unfold Globals.localPath makeLocalPath Globals.strTempDirPath
  simp

/-- A chain of renames marks its last name as pending and changes no mark for writing. -/
theorem final_renames (env : Env ε) {a : Str} (bs : List Str) {w : World ε}
    (ha : (w.fileStatus.entry a).m_fPendingOpen = true) :
    let s := (final (Callback.step env g) (renames a bs) w).fileStatus
    (s.entry ((a :: bs).getLast (by simp))).m_fPendingOpen = true ∧
      ∀ q, (s.entry q).m_fForWrite = (w.fileStatus.entry q).m_fForWrite := by
  induction bs generalizing a w with
  | nil => exact ⟨ha, fun q => rfl⟩
  | cons b bs ih =>
    have hstep := (rename_step env g a b w).2
    have hb :
        (((Callback.rename a b).step env g w).2.fileStatus.entry b).m_fPendingOpen = true := by
      rw [hstep, if_pos ⟨ha, rfl⟩]
      rfl
    obtain ⟨hlast, hfor⟩ := ih hb
    refine ⟨hlast, fun q => ?_⟩
    rw [renames, final, hfor, hstep]
    split
    · rename_i hq
      rw [hq.2]
      rfl
    · rfl

/-- After the chain the last name has the local copy of the name before it. -/
theorem entry_renames (env : Env ε) {a : Str} (b : Str) (bs : List Str) {w : World ε}
    (ha : (w.fileStatus.entry a).m_fPendingOpen = true) :
    let e := (final (Callback.step env g) (renames a (bs ++ [b])) w).fileStatus.entry b
    e.m_fPendingOpen = true ∧ e.m_fForWrite = (w.fileStatus.entry b).m_fForWrite ∧
      e.m_strRenamedFromLocal = g.localPath ((a :: bs).getLast (by simp)) := by
  obtain ⟨hlast, hfor⟩ := final_renames g env bs ha
  have hstep := (rename_step env g ((a :: bs).getLast (by simp)) b
    (final (Callback.step env g) (renames a bs) w)).2 b
  rw [if_pos ⟨hlast, rfl⟩] at hstep
  dsimp only
  rw [renames_concat, final_append, final, final, hstep]
  exact ⟨rfl, hfor b, rfl⟩

/-- The flush after a chain of renames pushes the local copy of the first name if and only
if the last name was marked for writing before, and the name before it has the same local
copy. -/
theorem rename_flush_iff (henv : FlushSucceeds env) {a b : Str} {bs : List Str}
    {pFi : FileInfo} {w : World ε} (ha : (w.fileStatus.entry a).m_fPendingOpen = true) :
    (g.localPath a, b) ∈ ((Callback.flush b pFi).step env g
        (final (Callback.step env g) (renames a (bs ++ [b])) w)).1.pushes ↔
      (w.fileStatus.entry b).m_fForWrite = true ∧
        g.localPath ((a :: bs).getLast (by simp)) = g.localPath a := by
  obtain ⟨hpend, hfor, hren⟩ := entry_renames g env b bs ha
  rw [(flush_step env g (henv pFi _)).1, FileStatus.Entry.flushed, hren, hpend, hfor,
    if_pos (localPath_ne_nil g _)]
  split
  · rename_i h
    simp [h.2, eq_comm]
  · rename_i h
    simp only [true_and, Bool.not_eq_true] at h
    simp [h]

end

theorem rename_flush_overWritten :
    (exampleGlobals.localPath ['/', 'a'], ['/', 'b']) ∈ ((Callback.flush ['/', 'b'] ⟨5, 2⟩).step
        Env.obliging exampleGlobals (final (Callback.step Env.obliging exampleGlobals)
          (renames ['/', 'a'] ([] ++ [['/', 'b']]))
          (final (Callback.step Env.obliging exampleGlobals)
            [.write ['/', 'a'] ['x'] 0 ⟨5, 2⟩, .write ['/', 'b'] ['y'] 0 ⟨6, 2⟩]
            World.start))).1.pushes ↔
      ((final (Callback.step Env.obliging exampleGlobals)
          [.write ['/', 'a'] ['x'] 0 ⟨5, 2⟩, .write ['/', 'b'] ['y'] 0 ⟨6, 2⟩]
          World.start).fileStatus.entry ['/', 'b']).m_fForWrite = true ∧
        exampleGlobals.localPath ['/', 'a'] = exampleGlobals.localPath ['/', 'a'] :=
  rename_flush_iff exampleGlobals (fun _ _ => obliging_fsync.flushOk _ _) (by decide)

/-- A written file is renamed, and the flush under its new name pushes nothing. -/
theorem rename_loses_write :
    let w := final (Callback.step Env.obliging exampleGlobals)
      [.write ['/', 'a'] ['x'] 0 ⟨5, 2⟩] World.start
    (w.fileStatus.entry ['/', 'a']).m_fPendingOpen = true ∧
      (w.fileStatus.entry ['/', 'a']).m_fForWrite = true ∧
      (w.fileStatus.entry ['/', 'a']).m_strRenamedFromLocal = [] ∧
      FlushSucceeds Env.obliging ∧
      (exampleGlobals.localPath ['/', 'a'], ['/', 'b']) ∉
        ((Callback.flush ['/', 'b'] ⟨5, 2⟩).step Env.obliging exampleGlobals
          (final (Callback.step Env.obliging exampleGlobals)
            (renames ['/', 'a'] [['/', 'b']]) w)).1.pushes := by
  refine ⟨by decide, by decide, by decide, fun _ _ => obliging_fsync.flushOk _ _, ?_⟩
  decide +kernel

end AdbncFs
