import LaserPath.Proofs.GCode.Lines
import LaserPath.Proofs.Program.Assembly
import LaserPath.Proofs.Selection

/-!
# What a program quotes

The comments of a program quote texts of the scene: the labels of blocks and of parts that
cannot be drawn, and the name or the tag of a part that draws nothing. Everything else in a
comment is fixed or a number. So a rule that is decided at line ends holds of all comments of
a program if and only if it holds of what is quoted.

## Main definitions

* `Part.quoted` — the text that a part contributes to the comments of a program.

## Main statements

* `Program.forall_comments_iff` — a line rule holds of all comments of a program if and only if
  it holds of what its parts contribute.
-/

namespace LaserPath

/-- The text that a node quotes when it draws nothing: the tag of a node of an unknown kind, and
the name of any other. -/
def Shape.ownText : Shape → String
  | .leaf _ (.unsupported tag) => tag
  | s => s.attributes.name

/-- The text that a part contributes to the comments of a program. A part that moves the head
and a part that cannot be drawn are announced by their labels. -/
def Part.quoted (settings : LaserSettings) (p : Part) : String :=
  match p.compile settings with
  | .ok toolpath => if toolpath.hasGeometry then p.label else p.shape.ownText
  | .error _ => p.label

theorem LaserSettings.Moves.comment?_eq_none {s : LaserSettings} {c : Command} (h : s.Moves c) :
    c.comment? = none := by
  cases h <;> rfl

section Figures

variable {s : LaserSettings} {a : Attributes} {anchor : Point} {figure : Figure} {t : Toolpath}

theorem Toolpath.comments_eq_nil (h : ∀ c ∈ t, s.Moves c) : t.comments = [] := by
  rw [comments, List.filterMap_eq_nil_iff]
  intro c hc
  exact (h c hc).comment?_eq_none

/-- The comments of a figure are its captions. -/
theorem Figure.comments_trace (h : figure.trace s a anchor = .ok t) :
    t.comments = figure.captions a := by
  obtain ⟨motions, rfl, hm⟩ := trace_eq_captions h
  rw [Toolpath.comments_append, Toolpath.comments_map_comment, Toolpath.comments_eq_nil hm,
    List.append_nil]

theorem Figure.unbroken_tag (h : ∀ tag, figure ≠ .unsupported tag) : Unbroken figure.tag := by
  cases figure with
  | unsupported tag => exact absurd rfl (h tag)
  | _ => exact unbroken_ofList rfl

theorem Figure.unbroken_vectorCaption (network? : Option Network) (paths : List String) :
    Unbroken (vectorCaption network? paths) := by
  unfold vectorCaption
  split
  · exact unbroken_ofList rfl
  · split <;> exact unbroken_ofList rfl

theorem Toolpath.comments_outline (corner : Point) (width height : Float) :
    comments (s.outline corner width height) = [] :=
  comments_eq_nil fun c hc => (LaserSettings.draws_outline corner width height c hc).moves

/-- The comment inside an empty container quotes nothing. -/
theorem Shape.unbroken_inside_nil (a : Attributes) (kind : ContainerKind)
    (ancestors : List Ancestor) :
    ∀ text ∈ (inside s a kind [] ancestors).comments, Unbroken text := by
  have hk : Unbroken kind.tag := by cases kind <;> exact unbroken_ofList rfl
  rw [inside, if_pos List.isEmpty_nil, Toolpath.comments_comment_cons, Toolpath.comments_outline,
    List.forall_mem_singleton]
  exact unbroken_append.2 ⟨hk, unbroken_ofList rfl⟩

end Figures

namespace LineRule

variable {P : String → Prop} (hP : LineRule P)

include hP

theorem caption_iff {tag : String} (ht : Unbroken tag) (a : Attributes) :
    P (a.caption tag) ↔ P a.name := by
  unfold Attributes.caption
  split
  · next h =>
    rw [String.isEmpty_iff.1 h]
    exact iff_of_true (hP.of_unbroken ht) (hP.of_unbroken (unbroken_ofList (l := []) rfl))
  · exact hP.quote_iff (unbroken_append.2 ⟨ht, unbroken_ofList rfl⟩) (unbroken_ofList rfl)
      (head?_ofList (by decide)) a.name

theorem displayName_iff (a : Attributes) : P a.displayName ↔ P a.name := by
  unfold Attributes.displayName
  split
  · next h =>
    rw [String.isEmpty_iff.1 h]
    exact iff_of_true (hP.of_unbroken (unbroken_ofList rfl))
      (hP.of_unbroken (unbroken_ofList (l := []) rfl))
  · rfl

/-- A label that follows the rule ends in a name that does. -/
theorem name_of_labels {label : String} {shape : Shape} (hl : shape.Labels label) (h : P label) :
    P shape.attributes.name := by
  rw [← hP.displayName_iff]
  rcases hl with rfl | ⟨above, rfl⟩
  · exact h
  · have hs : (Part.labelSeparator ++ shape.displayName).toList.head? ≠ some ';' := by
      rw [String.toList_append, List.head?_append_of_ne_nil _ (by decide)]
      decide
    have hsep : Unbroken Part.labelSeparator := unbroken_ofList rfl
    rw [String.append_assoc, hP.append_iff hs, hP.unbroken_append_iff hsep] at h
    exact h.2

theorem captions_of_name {a : Attributes} {figure : Figure} (hn : P a.name)
    (ht : ∀ tag, figure = .unsupported tag → P tag) : ∀ text ∈ figure.captions a, P text := by
  cases figure with
  | rectangle | ellipse | polygon corners | star points innerRadius? | line =>
    exact List.forall_mem_singleton.2 ((hP.caption_iff (Figure.unbroken_tag (by simp)) a).2 hn)
  | vector network? paths =>
    refine List.forall_mem_cons.2 ⟨(hP.caption_iff (Figure.unbroken_tag (by simp)) a).2 hn, ?_⟩
    exact List.forall_mem_singleton.2 (hP.of_unbroken (Figure.unbroken_vectorCaption _ _))
  | booleanOperation operation =>
    have ho : Unbroken operation.tag := by cases operation <;> exact unbroken_ofList rfl
    refine List.forall_mem_singleton.2 (hP.of_unbroken ?_)
    simp only [unbroken_append, ho, and_true]
    exact ⟨⟨unbroken_ofList rfl, unbroken_ofList rfl⟩, unbroken_ofList rfl⟩
  | component | slice | text =>
    refine List.forall_mem_singleton.2 (hP.of_unbroken ?_)
    exact unbroken_append.2 ⟨unbroken_ofList rfl, unbroken_ofList rfl⟩
  | unsupported tag =>
    refine List.forall_mem_singleton.2 ?_
    exact (hP.unbroken_append_iff (unbroken_ofList rfl)).2 (ht tag rfl)

/-- A figure that draws nothing says what the node quotes, and nothing else that could break
the rule. -/
theorem captions_iff {s : LaserSettings} {a : Attributes} {anchor : Point} {figure : Figure}
    {t : Toolpath} (h : figure.trace s a anchor = .ok t) (hg : t.hasGeometry = false) :
    (∀ text ∈ figure.captions a, P text) ↔ P (Shape.leaf a figure).ownText := by
  cases figure with
  | rectangle | ellipse | polygon corners | star points innerRadius? | line =>
    rw [Figure.captions, List.forall_mem_singleton]
    exact hP.caption_iff (Figure.unbroken_tag (by simp)) a
  | vector network? paths =>
    rw [Figure.captions, List.forall_mem_cons, List.forall_mem_singleton,
      hP.caption_iff (Figure.unbroken_tag (by simp))]
    exact and_iff_left (hP.of_unbroken (Figure.unbroken_vectorCaption _ _))
  | booleanOperation operation =>
    obtain rfl := Except.ok.inj h
    simp [Toolpath.hasGeometry, LaserSettings.outline, LaserSettings.rapidTo, Command.isMotion,
      Command.endpoint?] at hg
  | component | slice | text =>
    obtain rfl := Except.ok.inj h
    simp [Toolpath.hasGeometry, LaserSettings.outline, LaserSettings.rapidTo, Command.isMotion,
      Command.endpoint?] at hg
  | unsupported tag =>
    rw [Figure.captions, List.forall_mem_singleton]
    exact hP.unbroken_append_iff (unbroken_ofList rfl)

/-- The comments of an empty container name it twice. -/
theorem comments_framed_iff {a : Attributes} {kind : ContainerKind} {inside : Toolpath}
    (hi : ∀ text ∈ inside.comments, Unbroken text) :
    (∀ text ∈ (Shape.framed a kind inside).comments, P text) ↔ P a.name := by
  have hk : Unbroken kind.tag := by cases kind <;> exact unbroken_ofList rfl
  have hs : P (kind.tag ++ " START - \"" ++ a.name ++ "\"") ↔ P a.name :=
    hP.quote_iff (unbroken_append.2 ⟨hk, unbroken_ofList rfl⟩) (unbroken_ofList rfl)
      (head?_ofList (by decide)) a.name
  have he : P (kind.tag ++ " END - \"" ++ a.name ++ "\"") ↔ P a.name :=
    hP.quote_iff (unbroken_append.2 ⟨hk, unbroken_ofList rfl⟩) (unbroken_ofList rfl)
      (head?_ofList (by decide)) a.name
  have hin : ∀ text ∈ inside.comments, P text := fun text ht => hP.of_unbroken (hi text ht)
  simp only [Shape.framed, Toolpath.comments_comment_cons, Toolpath.comments_append,
    Toolpath.comments_nil, List.forall_mem_cons, List.forall_mem_append, List.not_mem_nil,
    false_implies, implies_true, and_true, hs, he]
  exact ⟨fun h => h.1, fun h => ⟨h, hin, h⟩⟩

end LineRule

/-- The rule holds of every text that an entry puts into comments. -/
def Entry.Quotes (P : String → Prop) : Entry → Prop
  | .block b => P b.label ∧ ∀ text ∈ b.toolpath.comments, P text
  | .note t => ∀ text ∈ t.comments, P text

section Entries

variable {P : String → Prop} (hP : LineRule P) {settings : LaserSettings}

include hP

/-- A part that moves the head and has a label that follows the rule has no other comments that
break it. -/
theorem Part.comments_of_label {p : Part} {t : Toolpath} (hp : p.Named)
    (h : p.compile settings = .ok t) (hg : t.hasGeometry = true) (hl : P p.label) :
    ∀ text ∈ t.comments, P text := by
  obtain ⟨shape, ancestors, label⟩ := p
  have hn : P shape.attributes.name := hP.name_of_labels hp.labels hl
  cases shape with
  | leaf a figure =>
    have ht := (Shape.compile_leaf_eq_ok_iff.1 h).2
    rw [Figure.comments_trace ht]
    refine hP.captions_of_name hn ?_
    rintro tag rfl
    obtain rfl := Except.ok.inj ht
    simp [Toolpath.hasGeometry, Command.isMotion, Command.endpoint?] at hg
  | container a kind children =>
    obtain rfl : children = [] := hp.childless
    obtain ⟨-, rfl⟩ := Shape.compile_container_eq_ok_iff.1 h
    exact (hP.comments_framed_iff (Shape.unbroken_inside_nil a kind ancestors)).2 hn

theorem Part.comments_iff_of_note {p : Part} {t : Toolpath} (hp : p.Named)
    (h : p.compile settings = .ok t) (hg : t.hasGeometry = false) :
    (∀ text ∈ t.comments, P text) ↔ P p.shape.ownText := by
  obtain ⟨shape, ancestors, label⟩ := p
  cases shape with
  | leaf a figure =>
    have ht := (Shape.compile_leaf_eq_ok_iff.1 h).2
    rw [Figure.comments_trace ht]
    exact hP.captions_iff ht hg
  | container a kind children =>
    obtain rfl : children = [] := hp.childless
    obtain ⟨-, rfl⟩ := Shape.compile_container_eq_ok_iff.1 h
    exact hP.comments_framed_iff (Shape.unbroken_inside_nil a kind ancestors)

/-- What a part adds to a program follows the rule if and only if the text that it contributes
does. -/
theorem Part.quotes_entry_iff {p : Part} (hp : p.Named) (id : Nat) :
    (p.entry id (p.compile settings)).Quotes P ↔ P (p.quoted settings) := by
  cases h : p.compile settings with
  | error error =>
    simp only [entry, quoted, h, Entry.Quotes, skippedComment, Toolpath.comments_comment_cons,
      Toolpath.comments_nil, List.forall_mem_singleton]
    rw [String.append_assoc, String.append_assoc]
    refine hP.quote_iff (unbroken_ofList rfl) ?_ ?_ p.label
    · exact unbroken_append.2 ⟨unbroken_ofList rfl,
        unbroken_append.2 ⟨error.unbroken_message, unbroken_ofList rfl⟩⟩
    · rw [String.toList_append, List.head?_append_of_ne_nil _ (by decide)]
      decide
  | ok t =>
    cases hg : t.hasGeometry with
    | true =>
      simp only [entry, quoted, h, hg, if_true, Entry.Quotes]
      exact ⟨fun hq => hq.1, fun hl => ⟨hl, comments_of_label hP hp h hg hl⟩⟩
    | false =>
      simp only [entry, quoted, h, hg, Entry.Quotes]
      exact comments_iff_of_note hP hp h hg

/-- The router neither adds nor drops a comment that could break a line. -/
theorem Block.Routed.quotes_iff {b b' : Block} (h : b.Routed b') :
    (Entry.block b).Quotes P ↔ (Entry.block b').Quotes P := by
  cases h with
  | kept => rfl
  | turned allowed hr =>
    obtain ⟨u, hu, rfl⟩ := Option.map_eq_some_iff.1 hr
    have hc : Unbroken "Reversed for travel optimization" := unbroken_ofList rfl
    have hperm := Toolpath.comments_reversed? hu
    refine and_congr_right fun _ => ?_
    rw [Block.reversedComment, Toolpath.comments_comment_cons, List.forall_mem_cons]
    constructor
    · intro h
      exact ⟨hP.of_unbroken hc, fun text hm => h text (hperm.mem_iff.1 hm)⟩
    · intro h text hm
      exact h.2 text (hperm.mem_iff.2 hm)

end Entries

namespace Program

theorem unbroken_travelComments (r : TravelReport) :
    ∀ text ∈ (travelComments r : Toolpath).comments, Unbroken text := by
  have hl (x : Float) := (Measure.isNumberText_length x).unbroken
  have hp (x : Float) := (Measure.isNumberText_percent x).unbroken
  simp only [travelComments, Toolpath.comments_comment_cons, Toolpath.comments_nil,
    List.forall_mem_cons, unbroken_append, hl, hp, and_true, List.not_mem_nil, false_implies,
    implies_true]
  and_intros <;> exact unbroken_ofList rfl

/-- The comments of the header are fixed up to numbers. -/
theorem unbroken_header (p : Program) : ∀ text ∈ p.header.comments, Unbroken text := by
  have hn := (isNumberText_toString p.selected).unbroken
  have hr (x : Float) := (Measure.isNumberText_rate x).unbroken
  have ht : ∀ text ∈ (p.travel?.elim [] travelComments : Toolpath).comments, Unbroken text := by
    cases p.travel? with
    | none => simp
    | some r => exact unbroken_travelComments r
  have ho (b : Bool) : Unbroken (if b then "enabled" else "disabled") := by
    cases b <;> exact unbroken_ofList rfl
  have hs : Toolpath.comments [.comment "",
      .setup p.config.laser.feedRate p.config.laser.rapidFeedRate p.config.laser.power,
      .laserOn p.config.output.inlineLaser] = [""] := rfl
  rw [header, Toolpath.comments_append, Toolpath.comments_append, hs, List.forall_mem_append,
    List.forall_mem_append, List.forall_mem_singleton]
  refine ⟨⟨?_, ht⟩, unbroken_ofList (l := []) rfl⟩
  simp only [Toolpath.comments_comment_cons, Toolpath.comments_nil, List.forall_mem_cons,
    unbroken_append, hn, hr, ho, and_true, List.not_mem_nil, false_implies, implies_true]
  and_intros <;> exact unbroken_ofList rfl

/-- The comments of the footer are fixed up to a number. -/
theorem unbroken_footer (p : Program) : ∀ text ∈ p.footer.comments, Unbroken text := by
  have hn := (isNumberText_toString p.skipped).unbroken
  have hs : Toolpath.comments [.comment "End of program",
      .laserOff p.config.output.inlineLaser, .endProgram] = ["End of program"] := rfl
  rw [footer, Toolpath.comments_append, hs, List.forall_mem_append, List.forall_mem_singleton]
  refine ⟨?_, unbroken_ofList rfl⟩
  split
  · simp
  · rw [Toolpath.comments_comment_cons, Toolpath.comments_nil, List.forall_mem_singleton]
    exact unbroken_append.2 ⟨unbroken_ofList rfl, hn⟩

section

variable {P : String → Prop} (hP : LineRule P)

include hP

theorem marker_iff {word : String} (hw : Unbroken word) (number count : Nat) (label : String) :
    P (word ++ " shape " ++ toString number ++ "/" ++ toString count ++ ": " ++ label) ↔
      P label := by
  refine hP.unbroken_append_iff ?_
  have hn (n : Nat) := (isNumberText_toString n).unbroken
  simp only [unbroken_append, hw, hn, and_true, true_and]
  and_intros <;> exact unbroken_ofList rfl

theorem forall_comments_entryCommands_iff (count number : Nat) (entries : List Entry) :
    (∀ text ∈ (entryCommands count number entries).comments, P text) ↔
      ∀ e ∈ entries, e.Quotes P := by
  induction entries generalizing number with
  | nil => simp [entryCommands]
  | cons e rest ih =>
    cases e with
    | note t =>
      rw [entryCommands, Toolpath.comments_append, List.forall_mem_append, List.forall_mem_cons, ih]
      rfl
    | block b =>
      have hb := marker_iff hP (unbroken_ofList rfl : Unbroken "Begin") number count b.label
      have he := marker_iff hP (unbroken_ofList rfl : Unbroken "End") number count b.label
      simp only [entryCommands, marker, Toolpath.comments_comment_cons, Toolpath.comments_append,
        List.forall_mem_cons, List.forall_mem_append, ih, hb, he, Entry.Quotes]
      exact ⟨fun h => ⟨⟨h.1, h.2.1⟩, h.2.2.2⟩, fun h => ⟨h.1.1, h.1.2, h.1.1, h.2⟩⟩

/-- A line rule holds of all comments of a program if and only if it holds of the texts that
its parts contribute. -/
theorem forall_comments_iff (config : Config) (selection : List SelectedNode) :
    (∀ text ∈ (assembled config selection).commands.comments, P text) ↔
      ∀ part ∈ parts selection, P (part.quoted config.laser) := by
  have hh : ∀ text ∈ (assembled config selection).header.comments, P text :=
    fun text ht => hP.of_unbroken (unbroken_header _ text ht)
  have hf : ∀ text ∈ (assembled config selection).footer.comments, P text :=
    fun text ht => hP.of_unbroken (unbroken_footer _ text ht)
  rw [commands, Toolpath.comments_append, Toolpath.comments_append, List.forall_mem_append,
    List.forall_mem_append, and_iff_left hf, and_iff_right hh,
    forall_comments_entryCommands_iff hP,
    forall_entries_iff fun b b' _ hr => hr.quotes_iff hP, forall_plainEntries_iff]
  constructor
  · intro h part hm
    obtain ⟨i, hi⟩ := List.mem_iff_getElem?.1 hm
    exact (Part.quotes_entry_iff hP (Part.named_of_mem_parts hm) i).1 (h i part hi)
  · intro h i part hi
    have hm := List.mem_of_getElem? hi
    exact (Part.quotes_entry_iff hP (Part.named_of_mem_parts hm) i).2 (h part hm)

end

end Program

end LaserPath
