import AdbncFs.System.Crashes
import AdbncFs.System.Statfs
import AdbncFs.System.Tokenizing

/-!
# Replies in the array of tokenize

`doStat`, `adbnc_getattr` and `adbnc_statfs` with the array of `tokenize`: for a line that does not
fit, their behaviour is undefined. For one that fits they are the functions without the array, which
the rest of the development is about.
-/

namespace AdbncFs

open Text Interaction

/-! ## The source -/

/-- `statResult` with the array of `tokenize`. -/
def statResultArray (fTokens : Bool) (output : Output) : Option (Int × List Str) := do
  if output = [] then return (-ENOENT, [])
  else if fTokens then
    let tokens ← tokenizeArray (joinedFront output)
    if tokens.length < 13 then return (-ENOENT, tokens)
    else return (0, tokens.drop (tokens.length - 15))
  else return (0, [])

def doStatArray (pcPath : Str) (fTokens : Bool) :
    ExceptT Crash (Program Sys) (Int × List Str) := do
  let output ← statOutput pcPath
  ofExcept (defined (statResultArray fTokens output))

def adbnc_getattrArray (pcPath : Str) : ExceptT Crash (Program Sys) (Int × Stat) := do
  let r ← doStatArray pcPath true
  return storedAttributes r

/-- `readDf` with the array of `tokenize`. -/
def readDfArray (fill : List Str → ExceptT Exception (StateM StatVfs) Unit) (output : Output)
    (fst : StatVfs) : Option (Int × StatVfs) := do
  match output with
  | _ :: front :: _ =>
    let tokens ← tokenizeArray front
    return storeDf fill tokens fst
  | _ => return (- EIO, fst)

def adbnc_statfsArray (pcPath : Str) : ExceptT Crash (Program Sys) (Int × StatVfs) := do
  if pcPath ≠ ['/'] then
    let blocks ← adbncShell (.dfBlocks pcPath)
    let (iRes, fst) ← ofExcept (defined (readDfArray fillBlocks blocks StatVfs.zero))
    if iRes = 0 then
      let inodes ← adbncShell (.dfInodes pcPath)
      let (iRes, fst) ← ofExcept (defined (readDfArray fillInodes inodes fst))
      return (iRes, { fst with f_namemax := 1024 })
    else return (iRes, fst)
  else return (0, StatVfs.zero)

/-! ## Replies that fit -/

/-- The text that `doStat` cuts fits the array. -/
def StatFits (output : Output) : Prop := FitsArray (joinedFront output)

instance (output : Output) : Decidable (StatFits output) :=
  inferInstanceAs (Decidable (FitsArray (joinedFront output)))

theorem statFits_nil : StatFits [] := by decide

theorem statResultArray_of_fits {output : Output} (h : StatFits output) (fTokens : Bool) :
    statResultArray fTokens output = some (statResult fTokens output) := by
  rw [statResultArray, statResult]
  split
  · rfl
  · split
    · rw [tokenizeArray_of_fits h]
      dsimp only [Option.bind_eq_bind, Option.bind_some]
      split <;> rfl
    · rfl

theorem statResultArray_of_not_fits {output : Output} (h : ¬ StatFits output) :
    statResultArray true output = none := by
  have hne : output ≠ [] := fun hnil => h (hnil ▸ statFits_nil)
  rw [statResultArray, if_neg hne, if_pos rfl, tokenizeArray_of_not_fits h]
  rfl

/-- Without a vector for the tokens nothing is cut. -/
theorem statResultArray_false (output : Output) :
    statResultArray false output = some (statResult false output) := by
  rw [statResultArray, statResult]
  split <;> rfl

/-- The second line, if there is one, fits the array. -/
def DfFits : Output → Prop
  | _ :: line :: _ => FitsArray line
  | _ => True

theorem readDfArray_of_fits {output : Output} (h : DfFits output)
    (fill : List Str → ExceptT Exception (StateM StatVfs) Unit) (fst : StatVfs) :
    readDfArray fill output fst = some (readDf fill output fst) := by
  rcases output with _ | ⟨header, _ | ⟨line, rest⟩⟩
  · rfl
  · rfl
  · rw [readDfArray, tokenizeArray_of_fits h]
    rfl

theorem readDfArray_of_not_fits {output : Output} (h : ¬ DfFits output)
    (fill : List Str → ExceptT Exception (StateM StatVfs) Unit) (fst : StatVfs) :
    readDfArray fill output fst = none := by
  rcases output with _ | ⟨header, _ | ⟨line, rest⟩⟩
  · exact absurd trivial h
  · exact absurd trivial h
  · rw [readDfArray, tokenizeArray_of_not_fits h]
    rfl

/-! ## The calls -/

section

variable {ε : Type} (env : Env ε) (p : Str) (w : World ε)

theorem run_doStatArray (fTokens : Bool) :
    (doStatArray p fTokens).run.run env.handle w =
      (defined (statResultArray fTokens ((statOutput p).run env.handle w).1),
        ((statOutput p).run env.handle w).2) := by
  rw [doStatArray, run_lift_bind]
  exact run_ofExcept env _ _

/-- Where the reply fits, the call is the one without the array. -/
theorem doStatArray_of_fits (h : StatFits ((statOutput p).run env.handle w).1) (fTokens : Bool) :
    (doStatArray p fTokens).run.run env.handle w =
      (.ok ((doStat p fTokens).run env.handle w).1, ((doStat p fTokens).run env.handle w).2) := by
  rw [run_doStatArray, statResultArray_of_fits h, doStat, Program.run_bind]
  rfl

theorem doStatArray_of_not_fits (h : ¬ StatFits ((statOutput p).run env.handle w).1) :
    ((doStatArray p true).run.run env.handle w).1 = .error .undefined := by
  rw [run_doStatArray, statResultArray_of_not_fits h]
  rfl

theorem adbnc_getattrArray_of_fits (h : StatFits ((statOutput p).run env.handle w).1) :
    (adbnc_getattrArray p).run.run env.handle w =
      (.ok ((adbnc_getattr p).run env.handle w).1, ((adbnc_getattr p).run env.handle w).2) := by
  rw [adbnc_getattrArray, ExceptT.run_bind, Program.run_bind, doStatArray_of_fits env p w h,
    adbnc_getattr, Program.run_bind, doStat, Program.run_bind]
  rfl

end

end AdbncFs
