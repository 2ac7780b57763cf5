import FactNet.Command.Run

/-!
# Commands on files in memory

What holds of a command that runs on files in memory is said of its answer and of the store that it
leaves, for every store that it may start from.  It is put together from what holds of its steps.

## Main definitions

* `Store.Ensures` — what a computation ensures of its answer and of the store that it leaves.

## Main results

* `Store.Ensures.bind` — what is ensured by one computation after another.
-/

namespace FactNet.Store

variable {β γ : Type}

/-- From every store with one property a computation leads to an answer and a store with another. -/
def Ensures (P : Store → Prop) (x : StateM Store β) (Q : β → Store → Prop) : Prop :=
  ∀ s, P s → Q (x.run s).1 (x.run s).2

namespace Ensures

variable {P : Store → Prop} {Q : β → Store → Prop} {R : γ → Store → Prop}
  {x : StateM Store β} {f : β → StateM Store γ}

theorem pure {b : β} (h : ∀ s, P s → Q b s) : Ensures P (Pure.pure b) Q := h

/-- **What is ensured by one computation after another.** -/
theorem bind (hx : Ensures P x Q) (hf : ∀ b, Ensures (Q b) (f b) R) : Ensures P (x >>= f) R :=
  fun s hs => hf _ _ (hx s hs)

/-- What holds of every state that a computation may start from can be taken for granted. -/
theorem of_and {p : Prop} (h : p → Ensures P x Q) : Ensures (fun s => P s ∧ p) x Q :=
  fun s hs => h hs.2 s hs.1

end Ensures

/-! ### Steps that leave the context -/

/-- A computation leaves the context of log records as it is. -/
def KeepsContext (x : StateM Store β) : Prop :=
  ∀ c, Ensures (fun s => s.context = c) x fun _ s => s.context = c

namespace KeepsContext

variable {x : StateM Store β} {f : β → StateM Store γ}

theorem pure (b : β) : KeepsContext (Pure.pure b) := fun _ => Ensures.pure fun _ hs => hs

theorem bind (hx : KeepsContext x) (hf : ∀ b, KeepsContext (f b)) : KeepsContext (x >>= f) :=
  fun c => (hx c).bind fun b => hf b c

theorem isThere (path : String) : KeepsContext (Host.isThere path) := fun _ _ hs => hs

theorem readText (path : String) : KeepsContext (Host.readText path) := fun _ _ hs => hs

theorem environment : KeepsContext Host.environment := fun _ _ hs => hs

theorem freshId : KeepsContext Host.freshId := fun _ _ hs => hs

theorem print (text : String) : KeepsContext (Host.print text) := fun _ _ hs => hs

theorem setUpLogging (setup : LogSetup) : KeepsContext (Host.setUpLogging setup) := fun _ _ hs => hs

end KeepsContext

/-- The context is changed as asked for. -/
theorem ensures_updateContext (change : Context → Context) (c : Context) :
    Ensures (fun s => s.context = c) (Host.updateContext change) fun _ s => s.context = change c :=
  fun _ hs => congrArg change hs

theorem context_write {s s' : Store} {path content : String} (h : s.write path content = .ok s') :
    s'.context = s.context := by
  unfold write at h
  split at h
  · cases h
  · split at h
    · cases h
    · obtain rfl := Except.ok.inj h
      rfl

theorem context_move (s : Store) (source target : String) :
    (s.move source target).context = s.context := by
  unfold move
  split <;> rfl

theorem context_addLine (s : Store) (path line : String) (maxBytes : Nat) (kept : Int) :
    (s.addLine path line maxBytes kept).context = s.context := by
  have hmoves : ∀ (moves : List (String × String)) (s : Store),
      (moves.foldl (fun s m => s.move m.1 m.2) s).context = s.context := by
    intro moves
    induction moves with
    | nil => exact fun _ => rfl
    | cons m moves ih => exact fun s => (ih _).trans (context_move ..)
  unfold addLine
  dsimp only
  split
  · exact hmoves _ s
  · rfl

theorem context_record (s : Store) (e : Event) : (s.record e).context = s.context := by
  unfold record
  dsimp only
  split
  · split
    · split
      · exact context_addLine ..
      · rfl
    · rfl
  · rfl

namespace KeepsContext

theorem log (e : Event) : KeepsContext (Host.log e) :=
  fun _ s hs => (context_record s e).trans hs

theorem writeText (path text : String) : KeepsContext (Host.writeText path text) := by
  intro c s hs
  cases hwrite : s.write path text with
  | ok s' =>
    have hrun : (Host.writeText path text : StateM Store _).run s = (.ok (), s') := by
      simp [Host.writeText, hwrite]
      rfl
    rw [hrun]
    exact (context_write hwrite).trans hs
  | error fault =>
    have hrun : (Host.writeText path text : StateM Store _).run s = (.error fault, s) := by
      simp [Host.writeText, hwrite]
      rfl
    rw [hrun]
    exact hs

theorem openLog (path : String) : KeepsContext (Host.openLog path) := by
  intro c s hs
  cases hopened : (if (s.text? path).isSome then .ok s else s.write path "" :
      Except FileFault Store) with
  | ok s' =>
    have hrun : (Host.openLog path : StateM Store _).run s =
        (.ok (), { s' with logFile := some path }) := by
      simp [Host.openLog, hopened]
      rfl
    rw [hrun]
    split at hopened
    · obtain rfl := Except.ok.inj hopened
      exact hs
    · exact (context_write hopened).trans hs
  | error fault =>
    have hrun : (Host.openLog path : StateM Store _).run s = (.error fault, s) := by
      simp [Host.openLog, hopened]
      rfl
    rw [hrun]
    exact hs

end KeepsContext

end FactNet.Store
