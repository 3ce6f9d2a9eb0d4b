import LaserPath.FileName
import LaserPath.Proofs.Stamp

/-!
# The names of program files

A suggested name is the name of a node with its reserved characters replaced, and behind it a
number and a stamp, which have none. The stamp is last, so of two names for one selection the one
of the later second is greater as a text.

## Main definitions

* `Unreserved` — a text without reserved characters.

## Main statements

* `unreserved_suggestedFileName` — a suggested name has no reserved characters.
* `suggestedFileName_lt` — later seconds have greater names.
-/

namespace LaserPath

/-! ## Reserved characters -/

/-- No character of the text has a meaning in paths. -/
def Unreserved (s : String) : Prop := ∀ c ∈ s.toList, c ∉ reservedCharacters

theorem unreserved_iff_all {s : String} :
    s.toList.all (fun c => !isReserved c) = true ↔ Unreserved s := by
  simp [Unreserved, isReserved]

instance (s : String) : Decidable (Unreserved s) := decidable_of_iff _ unreserved_iff_all

@[simp] theorem unreserved_append {s t : String} :
    Unreserved (s ++ t) ↔ Unreserved s ∧ Unreserved t := by
  simp only [Unreserved, String.toList_append, List.forall_mem_append]

theorem unreserved_of_isDigit {s : String} (h : ∀ c ∈ s.toList, c.isDigit = true) :
    Unreserved s := by
  intro c hc hreserved
  have hdigits : reservedCharacters.all (fun d => !d.isDigit) = true := by decide
  have := List.all_eq_true.1 hdigits c hreserved
  rw [h c hc] at this
  cases this

theorem unreserved_toString (n : Nat) : Unreserved (toString n) := by
  refine unreserved_of_isDigit fun c hc => ?_
  rw [Nat.toString_eq_repr, Nat.toList_repr] at hc
  exact isDigit_of_mem_digitsOf hc

theorem unreserved_paddedDigits (width n : Nat) : Unreserved (paddedDigits width n) :=
  unreserved_of_isDigit fun _ => isDigit_of_mem_paddedDigits

theorem unreserved_cleanName (name : String) : Unreserved (cleanName name) := by
  intro c hc hreserved
  have := not_isReserved_cleanName hc
  rw [isReserved, List.contains_iff_mem.2 hreserved] at this
  cases this

/-- Years of every length and sign are without reserved characters. -/
theorem unreserved_yearText (year : Int) : Unreserved (yearText year) := by
  have hdigits := unreserved_paddedDigits 4 year.natAbs
  unfold yearText
  dsimp only
  split
  · exact unreserved_append.2 ⟨by decide, hdigits⟩
  split
  · exact unreserved_append.2 ⟨by decide, hdigits⟩
  · exact hdigits

theorem unreserved_stamp (t : Timestamp) : Unreserved t.stamp := by
  have hhyphen : Unreserved "-" := by decide
  have hmark : Unreserved "T" := by decide
  simp [Timestamp.stamp, unreserved_yearText, unreserved_paddedDigits, hhyphen, hmark]

/-- Whatever the nodes are called, no suggested name has a reserved character. -/
theorem unreserved_suggestedFileName (selection : List SelectedNode) (time : Timestamp) :
    Unreserved (suggestedFileName selection time) := by
  unfold suggestedFileName
  split
  · decide
  · next first others =>
    simp only [unreserved_append]
    refine ⟨⟨⟨unreserved_cleanName _, ?_⟩, by decide⟩, unreserved_stamp time⟩
    split
    · decide
    · simp only [unreserved_append]
      exact ⟨⟨by decide, unreserved_toString _⟩, by decide⟩

/-! ## The order of names -/

section

variable {selection : List SelectedNode} {time later : Timestamp}

/-- A name ends in the stamp, and nothing in front of it depends on the time. -/
theorem exists_suggestedFileName_eq (h : selection ≠ []) :
    ∃ front, ∀ time, suggestedFileName selection time = front ++ time.stamp := by
  obtain - | ⟨first, others⟩ := selection
  · exact absurd rfl h
  · exact ⟨_, fun _ => rfl⟩

/-- Of two names for one selection that of the later second is greater. -/
theorem suggestedFileName_lt (h : selection ≠ []) (hlater : time.seconds < later.seconds)
    (ht : time.InFourDigits) (hl : later.InFourDigits) :
    suggestedFileName selection time < suggestedFileName selection later := by
  obtain ⟨front, hname⟩ := exists_suggestedFileName_eq h
  have hstamp := String.lt_iff_toList_lt.1 (Timestamp.stamp_lt_stamp hlater ht hl)
  rw [hname, hname, String.lt_iff_toList_lt, String.toList_append, String.toList_append]
  exact List.append_left_lt hstamp

end

end LaserPath
