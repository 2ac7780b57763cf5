import FactNet.Proofs.Naming
import FactNet.Proofs.Text.Pieces

/-!
# Names with types folded in

The types of the arguments stand at the end of the name of a relation, after a marker.  Whatever is
in front of them, the name of the relation may have markers of its own, or end in what a marker
starts with.

The types are read off the last marker.  There is none within the types, as no short name of a type
is the word of the marker, so they are read back whatever the relation is.

The relation is what stands in front of the first marker.  If its name has one, reading stops there,
be it typed or not.  If it has none, reading stops at the marker that was put after it, unless one
starts before.  The last character of a marker is its first, too, so that happens just if the name
ends in all of a marker but this character: such a name runs over into its types, and what runs over
is lost.

The letters of a marker do not occur in the name of any relation of the catalogue.  So its spellings
have no markers and do not run over, and they are read back.

## Main definitions

* `RunsOver` — a name runs over into its types.
* `graphSpelling` — a name without types as graphs spell it.

## Main results

* `getTypes?_append_typeSuffix` — types are read back from whatever line they end.
* `getTypes?_cleanRelation` — **the types of a relation are read back.**
* `before_typeMarker_append` — what stands in front of the first marker, if a name does not run over.
* `untypedRelation_typed_iff` — **types make no difference to how a relation reads back, unless it
  runs over into them.**
* `untypedRelation_cleanRelation_of_known` — **a spelling of a relation of the catalogue is read back
  as its name.**
-/

namespace FactNet

open FactNet.Text

/-! ### The last types -/

/-- Types that are found at the end of a text are found whatever is in front of them. -/
theorem lastSuffixTypes?_append {cs ds : List Char} {types : String × String}
    (h : lastSuffixTypes? ds = some types) : lastSuffixTypes? (cs ++ ds) = some types := by
  induction cs with
  | nil => exact h
  | cons c cs ih =>
    rw [List.cons_append, lastSuffixTypes?, ih]
    rfl

/-- Where no marker starts, there are no types. -/
theorem lastSuffixTypes?_cons {c : Char} {cs : List Char} (h : ¬ typeMarker <+: c :: cs) :
    lastSuffixTypes? (c :: cs) = lastSuffixTypes? cs := by
  have hdrop : dropPrefix? typeMarker (c :: cs) = none :=
    Option.eq_none_iff_forall_ne_some.2 fun rest hrest =>
      h ⟨rest, (dropPrefix?_eq_some hrest).symm⟩
  rw [lastSuffixTypes?, suffixTypes?, hdrop]
  cases lastSuffixTypes? cs <;> rfl

/-- A marker starts with an underscore, so a word in front of a text makes no difference. -/
theorem lastSuffixTypes?_word {word : List Char} (h : '_' ∉ word) (rest : List Char) :
    lastSuffixTypes? (word ++ rest) = lastSuffixTypes? rest := by
  induction word with
  | nil => rfl
  | cons c word ih =>
    rw [List.cons_append, lastSuffixTypes?_cons, ih (List.not_mem_of_not_mem_cons h)]
    intro hstart
    have hc : '_' = c := (List.cons_prefix_cons.1 hstart).1
    exact h (hc ▸ List.mem_cons_self)

theorem takeWhile_append_underscore {word : List Char} (h : ∀ c ∈ word, c.isUpper = true)
    (rest : List Char) : (word ++ '_' :: rest).takeWhile Char.isUpper = word ∧
      (word ++ '_' :: rest).dropWhile Char.isUpper = '_' :: rest := by
  rw [List.takeWhile_append_of_pos h, List.dropWhile_append_of_pos h]
  exact ⟨by simp, rfl⟩

/-- Two words of capital letters are read off a suffix that is made of them. -/
theorem suffixTypes?_of_words {head tail : List Char} (hhead : ∀ c ∈ head, c.isUpper = true)
    (hne : head ≠ []) (htail : ∀ c ∈ tail, c.isUpper = true) (hne' : tail ≠ []) :
    suffixTypes? (typeMarker ++ (head ++ (typeLink ++ tail))) =
      some (String.ofList head, String.ofList tail) := by
  obtain ⟨htake, hdrop⟩ := takeWhile_append_underscore hhead (['T', 'O', '_'] ++ tail)
  obtain ⟨c, head, rfl⟩ := List.exists_cons_of_ne_nil hne
  obtain ⟨d, tail, rfl⟩ := List.exists_cons_of_ne_nil hne'
  have hlink : dropPrefix? typeLink ('_' :: (['T', 'O', '_'] ++ d :: tail)) = some (d :: tail) :=
    dropPrefix?_append typeLink (d :: tail)
  have htail' : (d :: tail).takeWhile Char.isUpper = d :: tail := List.takeWhile_eq_self_iff.2 htail
  have hsplit : typeLink ++ d :: tail = '_' :: (['T', 'O', '_'] ++ d :: tail) := rfl
  rw [suffixTypes?, dropPrefix?_append, hsplit]
  simp only [htake, hdrop, hlink, htail']

namespace EntityType

/-- A short name is a word of capital letters. -/
theorem isUpper_of_mem_short (t : EntityType) : ∀ c ∈ t.short.toList, c.isUpper = true := by
  cases t <;> exact List.all_eq_true.1 (by decide)

theorem toList_short_ne_nil (t : EntityType) : t.short.toList ≠ [] := by
  cases t <;> simp [short]

/-- It is not the word of the marker. -/
theorem toList_short_ne_marker (t : EntityType) : t.short.toList ≠ ['T', 'Y', 'P', 'E'] := by
  cases t <;> simp [short]

/-- A type is found by its short name. -/
theorem ofName?_short (t : EntityType) : ofName? t.short = some t := by
  cases t <;> decide +kernel

end EntityType

theorem toList_typeSuffix (head tail : EntityType) : (typeSuffix head tail).toList =
    typeMarker ++ (head.short.toList ++ (typeLink ++ tail.short.toList)) := by
  simp [typeSuffix]

/-- No marker starts within the types, as no type has the word of the marker for its short name. -/
theorem lastSuffixTypes?_tail_typeSuffix (head tail : EntityType) :
    lastSuffixTypes? (typeSuffix head tail).toList.tail = none := by
  have hsplit : (typeSuffix head tail).toList.tail = ['T', 'Y', 'P', 'E'] ++
      '_' :: (head.short.toList ++ '_' :: (['T', 'O'] ++ '_' :: tail.short.toList)) := by
    rw [toList_typeSuffix]
    rfl
  have hhead : ¬ typeMarker <+:
      '_' :: (head.short.toList ++ '_' :: (['T', 'O'] ++ '_' :: tail.short.toList)) := by
    rintro ⟨rest, hrest⟩
    have hmarker : '_' ∉ ['T', 'Y', 'P', 'E'] := by decide
    have hword := (append_cons_inj hmarker head.underscore_notMem_short).1 (List.cons.inj hrest).2
    exact head.toList_short_ne_marker hword.1.symm
  have hlink : ¬ typeMarker <+: '_' :: (['T', 'O'] ++ '_' :: tail.short.toList) := by
    simp [typeMarker]
  have htail : ¬ typeMarker <+: '_' :: tail.short.toList := fun h =>
    tail.underscore_notMem_short ((List.cons_prefix_cons.1 h).2.subset (by decide))
  have hword : lastSuffixTypes? tail.short.toList = none := by
    have h := lastSuffixTypes?_word tail.underscore_notMem_short []
    rwa [List.append_nil] at h
  rw [hsplit, lastSuffixTypes?_word (by decide), lastSuffixTypes?_cons hhead,
    lastSuffixTypes?_word head.underscore_notMem_short, lastSuffixTypes?_cons hlink,
    lastSuffixTypes?_word (by decide), lastSuffixTypes?_cons htail, hword]

theorem lastSuffixTypes?_typeSuffix (head tail : EntityType) :
    lastSuffixTypes? (typeSuffix head tail).toList = some (head.short, tail.short) := by
  have hfirst : suffixTypes? (typeSuffix head tail).toList = some (head.short, tail.short) := by
    rw [toList_typeSuffix, suffixTypes?_of_words head.isUpper_of_mem_short head.toList_short_ne_nil
      tail.isUpper_of_mem_short tail.toList_short_ne_nil, String.ofList_toList, String.ofList_toList]
  have hlater := lastSuffixTypes?_tail_typeSuffix head tail
  obtain ⟨c, cs, hcons⟩ : ∃ c cs, (typeSuffix head tail).toList = c :: cs :=
    ⟨_, _, toList_typeSuffix head tail⟩
  rw [hcons] at hfirst hlater ⊢
  rw [List.tail_cons] at hlater
  rw [lastSuffixTypes?, hfirst, hlater]
  rfl

/-- **Types are read back from whatever line they end.** -/
theorem getTypes?_append_typeSuffix {s : String} (h : '\n' ∉ s.toList) (head tail : EntityType) :
    getTypes? (s ++ typeSuffix head tail) = some (head, tail) := by
  have hsuffix : '\n' ∉ (typeSuffix head tail).toList := by
    have hupper : ∀ t : EntityType, '\n' ∉ t.short.toList := fun t hmem =>
      absurd (t.isUpper_of_mem_short _ hmem) (by decide)
    simp [toList_typeSuffix, typeMarker, typeLink, hupper]
  have htake : (s ++ typeSuffix head tail).toList.takeWhile (· ≠ '\n') =
      s.toList ++ (typeSuffix head tail).toList := by
    rw [String.toList_append, List.takeWhile_eq_self_iff]
    intro c hc
    refine decide_eq_true fun heq => ?_
    rcases List.mem_append.1 hc with hc | hc
    · exact h (heq ▸ hc)
    · exact hsuffix (heq ▸ hc)
  rw [getTypes?, htake, lastSuffixTypes?_append (lastSuffixTypes?_typeSuffix head tail)]
  simp only [EntityType.ofName?_short]

/-- **The types of a relation are read back**, whatever its name is. -/
theorem getTypes?_cleanRelation (relation : String) (head tail : EntityType) :
    getTypes? (cleanRelation relation (some head) (some tail)) = some (head, tail) := by
  refine getTypes?_append_typeSuffix (fun hmem => ?_) head tail
  rw [cleanName, String.toList_ofList] at hmem
  exact absurd (isWordChar_of_mem_cleanChars hmem) (by decide)

/-! ### The first marker -/

/-- A name runs over into its types: it has no marker, but ends in all of one but the last
character. -/
def RunsOver (cs : List Char) : Prop := ¬ typeMarker <:+: cs ∧ typeMarker.dropLast <:+ cs

instance (cs : List Char) : Decidable (RunsOver cs) :=
  inferInstanceAs (Decidable (¬ typeMarker <:+: cs ∧ typeMarker.dropLast <:+ cs))

/-- **A marker starts in a name, whatever comes after it, just if it ends there or runs over by its
last character.** -/
theorem typeMarker_isInfix_append {cs : List Char} :
    typeMarker <:+: cs ++ typeMarker.dropLast ↔
      typeMarker <:+: cs ∨ typeMarker.dropLast <:+ cs := by
  constructor
  · rintro ⟨s, e, h⟩
    rw [List.append_eq_append_iff] at h
    obtain ⟨a, rfl, -⟩ | ⟨a, hname, hover⟩ := h
    · exact .inl ⟨s, a, rfl⟩
    · rcases List.eq_nil_or_concat' a with rfl | ⟨a, c, rfl⟩
      · exact .inl ⟨s, [], by rw [hname, List.append_nil, List.append_nil]⟩
      · -- what runs over ends in an underscore, and only the first character is one
        have hlast : s ++ typeMarker.dropLast ++ ['_'] = cs ++ a ++ [c] := by
          simpa [typeMarker] using hname
        obtain ⟨hstem, hc⟩ := List.append_inj' hlast rfl
        obtain rfl : '_' = c := (List.cons.inj hc).1
        cases a with
        | nil => exact .inr ⟨s, by rw [hstem, List.append_nil]⟩
        | cons d a =>
          have hword : ['T', 'Y', 'P', 'E'] = a ++ ['_'] ++ e := (List.cons.inj hover).2
          have hmem : '_' ∈ a ++ ['_'] ++ e := by simp
          exact absurd (hword ▸ hmem) (by decide)
  · rintro (h | ⟨s, rfl⟩)
    · exact h.trans (List.prefix_append ..).isInfix
    · exact ⟨s, ['T', 'Y', 'P', 'E'], by simp [typeMarker]⟩

theorem typeMarker_ne_nil : typeMarker ≠ [] := List.cons_ne_nil _ _

/-- **What stands in front of the first marker** does not change when types are put after a name
that does not run over into them. -/
theorem before_typeMarker_append {cs : List Char} (h : ¬RunsOver cs) (types : List Char) :
    before typeMarker (cs ++ (typeMarker ++ types)) = before typeMarker cs := by
  by_cases hpart : typeMarker <:+: cs
  · exact before_append typeMarker_ne_nil hpart _
  · have hfirst : ¬ typeMarker <:+: cs ++ typeMarker.dropLast := fun hover =>
      h ⟨hpart, (typeMarker_isInfix_append.1 hover).resolve_left hpart⟩
    rw [before_append_piece typeMarker_ne_nil hfirst, before_eq_self typeMarker_ne_nil hpart]

/-- Of a name that runs over, the end is lost. -/
theorem before_typeMarker_of_runsOver {stem : List Char}
    (h : ¬ typeMarker <:+: stem ++ typeMarker.dropLast) (types : List Char) :
    before typeMarker (stem ++ typeMarker.dropLast ++ (typeMarker ++ types)) = stem := by
  have hshift : stem ++ typeMarker.dropLast ++ (typeMarker ++ types) =
      stem ++ (typeMarker ++ (typeMarker.tail ++ types)) := by
    simp [typeMarker]
  rw [hshift, before_append_piece typeMarker_ne_nil h]

/-! ### How names read back -/

/-- A name without types as graphs spell it. -/
def graphSpelling (cs : List Char) : String :=
  match KnownRelation.find? (String.ofList (graphStart cs)) with
  | some r => r.name
  | none => String.ofList ((graphStart cs).map fun c => if c = '_' then ' ' else c)

/-- A name reads back as what stands in front of its first marker. -/
theorem untypedRelation_eq (typed : String) :
    untypedRelation typed = graphSpelling (before typeMarker typed.toList) := by
  unfold untypedRelation graphSpelling
  cases hfind : KnownRelation.find? (String.ofList (graphStart (before typeMarker typed.toList))) <;>
    simp only [hfind]

/-- Both types are given, or there are none in the name. -/
theorem cleanRelation_cases (relation : String) (head tail : Option EntityType) :
    cleanRelation relation head tail = cleanName relation ∨ ∃ t t' : EntityType,
      cleanRelation relation head tail = cleanRelation relation (some t) (some t') := by
  cases head with
  | none => cases tail <;> exact .inl rfl
  | some t =>
    cases tail with
    | none => exact .inl rfl
    | some t' => exact .inr ⟨t, t', rfl⟩

theorem toList_cleanRelation (relation : String) (head tail : EntityType) :
    (cleanRelation relation (some head) (some tail)).toList = (cleanName relation).toList ++
      (typeMarker ++ (head.short.toList ++ (typeLink ++ tail.short.toList))) := by
  rw [cleanRelation, String.toList_append, toList_typeSuffix]

theorem foldedChars_spaces (cs : List Char) :
    foldedChars (cs.map fun c => if c = '_' then ' ' else c) = foldedChars cs := by
  induction cs with
  | nil => rfl
  | cons c cs ih =>
    rw [List.map_cons, foldedChars_cons, ih, foldedChars_cons c cs]
    split
    · next hc => rw [hc, show foldedChars [' '] = foldedChars ['_'] by decide]
    · rfl

/-- **What graphs spell has the letters and digits of the name.** -/
theorem foldedChars_graphSpelling (cs : List Char) :
    foldedChars (graphSpelling cs).toList = foldedChars cs := by
  unfold graphSpelling
  cases hfind : KnownRelation.find? (String.ofList (graphStart cs)) with
  | some r =>
    have hsame := (KnownRelation.find?_eq_some_iff.1 hfind).2
    rw [String.toList_ofList, foldedChars_graphStart] at hsame
    exact hsame.symm
  | none =>
    dsimp only
    rw [String.toList_ofList, foldedChars_spaces, foldedChars_graphStart]

/-- A name that ends in a marker but its last character is spelled otherwise without that end. -/
theorem graphSpelling_ne (stem : List Char) :
    graphSpelling stem ≠ graphSpelling (stem ++ typeMarker.dropLast) := by
  intro heq
  have hfolded := congrArg (fun s : String => foldedChars s.toList) heq
  have hword : foldedChars typeMarker.dropLast = ['t', 'y', 'p', 'e'] := by decide
  simp only [foldedChars_graphSpelling, foldedChars_append, hword] at hfolded
  exact absurd (congrArg List.length hfolded) (by simp)

/-! ### Typed names -/

variable {relation : String}

/-- A name that does not run over reads back the same with types and without. -/
theorem untypedRelation_of_not_runsOver (h : ¬RunsOver (cleanName relation).toList)
    (head tail : EntityType) :
    untypedRelation (cleanRelation relation (some head) (some tail)) =
      untypedRelation (cleanRelation relation none none) := by
  rw [untypedRelation_eq, toList_cleanRelation, before_typeMarker_append h, untypedRelation_eq]
  rfl

/-- A name that runs over reads back without its end when it is typed. -/
theorem untypedRelation_of_runsOver (h : RunsOver (cleanName relation).toList)
    (head tail : EntityType) : ∃ stem,
      (cleanName relation).toList = stem ++ typeMarker.dropLast ∧
      untypedRelation (cleanRelation relation (some head) (some tail)) = graphSpelling stem ∧
      untypedRelation (cleanRelation relation none none) =
        graphSpelling (stem ++ typeMarker.dropLast) := by
  obtain ⟨hnone, stem, hstem⟩ := h
  rw [← hstem] at hnone
  refine ⟨stem, hstem.symm, ?_, ?_⟩
  · rw [untypedRelation_eq, toList_cleanRelation, ← hstem, before_typeMarker_of_runsOver hnone]
  · have hplain : cleanRelation relation none none = cleanName relation := rfl
    rw [hplain, untypedRelation_eq, ← hstem, before_eq_self typeMarker_ne_nil hnone]

/-- **Types make no difference to how a relation reads back, unless it runs over into them.**  A
name that does, having no marker and ending in all of one but the last character, reads back as what
is in front of that end when it is typed, and as a whole when it is not. -/
theorem untypedRelation_typed_iff (relation : String) (head tail : EntityType) :
    (untypedRelation (cleanRelation relation (some head) (some tail)) =
        untypedRelation (cleanRelation relation none none) ↔
      ¬RunsOver (cleanName relation).toList) ∧
    (RunsOver (cleanName relation).toList → ∃ stem,
      (cleanName relation).toList = stem ++ typeMarker.dropLast ∧
      untypedRelation (cleanRelation relation (some head) (some tail)) = graphSpelling stem ∧
      untypedRelation (cleanRelation relation none none) =
        graphSpelling (stem ++ typeMarker.dropLast)) := by
  refine ⟨⟨fun heq hover => ?_, fun hnot => untypedRelation_of_not_runsOver hnot head tail⟩,
    fun hover => untypedRelation_of_runsOver hover head tail⟩
  obtain ⟨stem, -, htyped, hplain⟩ := untypedRelation_of_runsOver hover head tail
  exact graphSpelling_ne stem (htyped.symm.trans (heq.trans hplain))

/-- A relation whose last word is that of the marker runs over. -/
theorem runsOver_bloodType : RunsOver (cleanName "BLOOD TYPE").toList := by
  decide +kernel

/-- With types it reads back without that word. -/
theorem untypedRelation_typed_iff_bloodType :
    RunsOver (cleanName "BLOOD TYPE").toList ∧ ∃ stem,
      (cleanName "BLOOD TYPE").toList = stem ++ typeMarker.dropLast ∧
      untypedRelation (cleanRelation "BLOOD TYPE" (some .person) (some .misc)) =
        graphSpelling stem ∧
      untypedRelation (cleanRelation "BLOOD TYPE" none none) =
        graphSpelling (stem ++ typeMarker.dropLast) :=
  ⟨runsOver_bloodType, (untypedRelation_typed_iff "BLOOD TYPE" .person .misc).2 runsOver_bloodType⟩

/-- **Types can make a difference to how a relation reads back.** -/
theorem untypedRelation_bloodType_ne :
    untypedRelation (cleanRelation "BLOOD TYPE" (some .person) (some .misc)) ≠
      untypedRelation (cleanRelation "BLOOD TYPE" none none) := by
  obtain ⟨stem, -, htyped, hplain⟩ := untypedRelation_of_runsOver runsOver_bloodType .person .misc
  rw [htyped, hplain]
  exact graphSpelling_ne stem

/-! ### Relations of the catalogue -/

/-- The letters of a marker occur in no name of the catalogue. -/
theorem not_marker_isInfix_of_mem_catalogue {r : KnownRelation} (hr : r ∈ catalogue) :
    ¬ foldedChars typeMarker <:+: foldedChars r.name.toList := by
  have hall : (catalogue.all fun r =>
      decide (¬ foldedChars typeMarker <:+: foldedChars r.name.toList)) = true := by
    decide +kernel
  exact of_decide_eq_true (List.all_eq_true.1 hall r hr)

theorem foldedChars_isInfix {cs ds : List Char} (h : cs <:+: ds) :
    foldedChars cs <:+: foldedChars ds := by
  obtain ⟨s, e, rfl⟩ := h
  exact ⟨foldedChars s, foldedChars e, by rw [foldedChars_append, foldedChars_append]⟩

/-- What graphs spell depends on the letters and digits alone if the catalogue knows them. -/
theorem graphSpelling_of_known {cs : List Char} {r : KnownRelation} (hr : r ∈ catalogue)
    (h : foldedChars cs = foldedChars r.name.toList) : graphSpelling cs = r.name := by
  have hfind : KnownRelation.find? (String.ofList (graphStart cs)) = some r :=
    KnownRelation.find?_eq_some_iff.2 ⟨hr, by rw [String.toList_ofList, foldedChars_graphStart, h]⟩
  rw [graphSpelling, hfind]

/-- A name with the letters of a relation of the catalogue has no marker and does not run over. -/
theorem before_typeMarker_of_known {cs : List Char} {r : KnownRelation} (hr : r ∈ catalogue)
    (h : foldedChars cs = foldedChars r.name.toList) (types : List Char) :
    before typeMarker cs = cs ∧ before typeMarker (cs ++ (typeMarker ++ types)) = cs := by
  have hword : foldedChars typeMarker.dropLast = foldedChars typeMarker := by decide
  have hnone : ¬ typeMarker <:+: cs := fun hpart =>
    not_marker_isInfix_of_mem_catalogue hr (h ▸ foldedChars_isInfix hpart)
  have hover : ¬RunsOver cs := fun hover =>
    not_marker_isInfix_of_mem_catalogue hr (h ▸ hword ▸ foldedChars_isInfix hover.2.isInfix)
  have hself := before_eq_self typeMarker_ne_nil hnone
  exact ⟨hself, by rw [before_typeMarker_append hover, hself]⟩

/-- **A spelling of a relation of the catalogue is read back as its name**, typed or not: any ASCII
text with the letters and digits of the relation, whatever their case and whatever else there is. -/
theorem untypedRelation_cleanRelation_of_known {s : String} {r : KnownRelation}
    (hascii : ∀ c ∈ s.toList, c.toNat < 128) (hr : KnownRelation.find? s = some r)
    (head tail : Option EntityType) : untypedRelation (cleanRelation s head tail) = r.name := by
  obtain ⟨hmem, hfolded⟩ := KnownRelation.find?_eq_some_iff.1 hr
  have hname : foldedChars (cleanName s).toList = foldedChars r.name.toList :=
    (foldedChars_cleanName hascii).trans hfolded
  rcases cleanRelation_cases s head tail with heq | ⟨t, t', heq⟩
  · rw [heq, untypedRelation_eq, (before_typeMarker_of_known hmem hname []).1,
      graphSpelling_of_known hmem hname]
  · rw [heq, untypedRelation_eq, toList_cleanRelation, (before_typeMarker_of_known hmem hname _).2,
      graphSpelling_of_known hmem hname]

/-- Capital letters, separators of several kinds and blanks that are no spaces. -/
theorem untypedRelation_cleanRelation_of_known_executives :
    (∀ c ∈ "Org: TOP__members \t/ EMPLOYEES ".toList, c.toNat < 128) ∧
    KnownRelation.find? "Org: TOP__members \t/ EMPLOYEES " =
      some ⟨"org:top_members/employees", .organization, [.person]⟩ ∧
    untypedRelation (cleanRelation "Org: TOP__members \t/ EMPLOYEES " (some .organization)
      (some .person)) = "org:top_members/employees" := by
  have hascii : ∀ c ∈ "Org: TOP__members \t/ EMPLOYEES ".toList, c.toNat < 128 := by
    simp
  have hfind : KnownRelation.find? "Org: TOP__members \t/ EMPLOYEES " =
      some ⟨"org:top_members/employees", .organization, [.person]⟩ :=
    KnownRelation.find?_eq_some_iff.2 ⟨by simp [catalogue], by decide +kernel⟩
  exact ⟨hascii, hfind, untypedRelation_cleanRelation_of_known hascii hfind _ _⟩

end FactNet
