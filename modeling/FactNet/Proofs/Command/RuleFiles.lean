import FactNet.Proofs.Command.Context
import FactNet.Proofs.Json.Decode
import FactNet.Proofs.Text.Pieces

/-!
# The rule files that a command reads

The paths of rule files are joined by commas into one setting, and the setting is cut at commas
again, without the blanks at the ends of each part and without empty parts.  So a path comes back
as it is unless it has a comma in it or a blank at an end.

## Main definitions

* `listedPaths` — the paths that a text lists.
* `IsListable` — a path can stand in such a list.

## Main results

* `listedPaths_intercalate` — what joined paths list is what they list one after another.
* `Command.rulesFiles_of_load` — the rule files of the command line go before all others.
* `Command.prepare_reads_given` — the rule files that an inference is given.
-/

namespace FactNet

open FactNet.Json FactNet.Text

/-! ### Lists of paths in one text -/

/-- The paths that a text lists. -/
def listedPaths (s : String) : List String :=
  ((pieces ',' s).map trimText).filter fun f => !f.isEmpty

theorem Settings.ruleFiles_eq (s : Settings) : s.ruleFiles = listedPaths s.rulesFiles := rfl

/-- A path can stand in a list: it is not empty, and has no comma and no blank at either end. -/
structure IsListable (path : String) : Prop where
  ne_empty : path ≠ ""
  no_comma : ',' ∉ path.toList
  trimmed : trimText path = path

theorem trimText_eq_self_iff {s : String} : trimText s = s ↔ trim s.toList = s.toList := by
  rw [trimText, ← String.toList_inj, String.toList_ofList]

/-- Whatever is listed can stand in a list. -/
theorem isListable_of_mem {s path : String} (h : path ∈ listedPaths s) : IsListable path := by
  obtain ⟨hmem, hne⟩ := List.mem_filter.1 h
  obtain ⟨p, hp, rfl⟩ := List.mem_map.1 hmem
  obtain ⟨cs, hcs, rfl⟩ := List.mem_map.1 hp
  have hcomma := notMem_of_mem_splitAtChar hcs
  refine ⟨by simpa using hne, ?_, ?_⟩
  · rw [trimText, String.toList_ofList, String.toList_ofList]
    exact fun hmem => hcomma ((trim_isInfix cs).subset hmem)
  · rw [trimText_eq_self_iff, trimText, String.toList_ofList, String.toList_ofList, trim_trim]

/-- A path lists just itself if it can stand in a list. -/
theorem listedPaths_eq_singleton_iff {path : String} : listedPaths path = [path] ↔ IsListable path := by
  constructor
  · intro h
    exact isListable_of_mem (s := path) (by simp [h])
  · intro h
    have hpieces : pieces ',' path = [path] := by
      rw [pieces, splitAtChar_of_notMem h.no_comma]
      simp
    rw [listedPaths, hpieces]
    simp [h.trimmed, h.ne_empty]

/-- **What joined paths list is what they list one after another.** -/
theorem listedPaths_intercalate {paths : List String} (h : paths ≠ []) :
    listedPaths (",".intercalate paths) = paths.flatMap listedPaths := by
  have hpieces : pieces ',' (",".intercalate paths) = paths.flatMap (pieces ',') :=
    pieces_intercalate_flatMap h
  rw [listedPaths, hpieces, List.map_flatMap, List.filter_flatMap]
  rfl

/-- **Joined paths list themselves just if all of them can stand in a list.** -/
theorem listedPaths_intercalate_eq_self_iff {paths : List String} (h : paths ≠ []) :
    listedPaths (",".intercalate paths) = paths ↔ ∀ p ∈ paths, IsListable p := by
  constructor
  · intro hself p hp
    rw [← hself] at hp
    exact isListable_of_mem hp
  · intro hall
    rw [listedPaths_intercalate h, List.flatMap_congr fun p hp =>
      listedPaths_eq_singleton_iff.2 (hall p hp)]
    simp

theorem Path.normal_ne_empty (path : String) : Path.normal path ≠ "" := by
  unfold Path.normal
  dsimp only
  split
  · decide
  · next h => simpa using h

theorem isListable_normal_iff {path : String} : IsListable (Path.normal path) ↔
    ',' ∉ (Path.normal path).toList ∧ trimText (Path.normal path) = Path.normal path :=
  ⟨fun h => ⟨h.no_comma, h.trimmed⟩, fun h => ⟨Path.normal_ne_empty path, h.1, h.2⟩⟩

/-! ### Settings of the command line -/

namespace Command

/-- What is given on the command line for the rule files. -/
theorem find?_givenSettings {a : InferArguments} {paths : List String} (hne : paths ≠ [])
    (ha : a.rules = some paths) (environment : List (String × String)) (dotenv : Option String) :
    SettingSources.find? ⟨givenSettings a, environment, dotenv⟩ "inference_rules_files" =
      some (.text (",".intercalate (paths.map Path.normal))) := by
  obtain ⟨path, rest, rfl⟩ := List.exists_cons_of_ne_nil hne
  have hrules : smalls "inference_rules_files" = "inference_rules_files" := by decide +kernel
  have hengine : (smalls "inference_engine" == "inference_rules_files") = false := by decide +kernel
  have hlast : lastNamed? (givenSettings a) "inference_rules_files" =
      some (.text (",".intercalate ((path :: rest).map Path.normal))) := by
    unfold lastNamed? givenSettings
    rw [ha]
    cases a.engine with
    | none => simp [Pairs.last?, hrules]
    | some name =>
      by_cases hname : name.isEmpty = true
      · simp [Pairs.last?, hname, hrules]
      · simp [Pairs.last?, hname, hrules, hengine]
  simp [SettingSources.find?, hlast]

theorem rulesFiles_of_readValues {s : SettingSources} {settings : Settings} {text : String}
    (h : Settings.readValues s = .ok settings)
    (htext : s.find? "inference_rules_files" = some (.text text)) : settings.rulesFiles = text := by
  unfold Settings.readValues at h
  -- the rule files are the second setting that is read
  iterate 18 obtain ⟨_, _, h, -, hmade⟩ := Outcome.also_eq_ok_iff.1 h
  obtain ⟨_, files, h, hfiles, hmade⟩ := Outcome.also_eq_ok_iff.1 h
  obtain ⟨_, _, h, -, hmade⟩ := Outcome.also_eq_ok_iff.1 h
  have hstart := Outcome.start_eq_ok_iff.1 h
  have hvalue : text = files := by
    simpa [SettingSources.setting, htext, asText] using hfiles
  subst_vars
  rfl

/-- **The rule files of the command line go before those of the environment and its file.** -/
theorem rulesFiles_of_load {a : InferArguments} {paths : List String} (hne : paths ≠ [])
    (ha : a.rules = some paths) {environment : List (String × String)} {dotenv : Option String}
    {settings : Settings}
    (h : Settings.load ⟨givenSettings a, environment, dotenv⟩ = .ok settings) :
    settings.rulesFiles = ",".intercalate (paths.map Path.normal) := by
  unfold Settings.load at h
  split at h
  · cases h
  · next read hread =>
    split at h
    · obtain rfl := Except.ok.inj h
      exact rulesFiles_of_readValues hread (find?_givenSettings hne ha environment dotenv)
    · cases h

theorem ruleFiles_of_loads {a : InferArguments} {paths : List String} (hne : paths ≠ [])
    (ha : a.rules = some paths) {settings : Settings} (h : Loads a settings) :
    settings.ruleFiles = (paths.map Path.normal).flatMap listedPaths := by
  obtain ⟨environment, dotenv, hload⟩ := h
  rw [Settings.ruleFiles_eq, rulesFiles_of_load hne ha hload, listedPaths_intercalate (by simpa)]

/-- **An inference that is ready has the rule files that the given paths list, one after another;
these are the given paths just if none of them has a comma in it or a blank at an end.  If they do
not list any, rule files are missed.** -/
theorem prepare_reads_given {a : InferArguments} {paths : List String} (hne : paths ≠ [])
    (ha : a.rules = some paths) (verbose : Bool) (s : Store) :
    (∀ task, ((prepare a verbose : StateM Store _).run s).1 = .ok task →
      task.settings.ruleFiles = (paths.map Path.normal).flatMap listedPaths ∧
      (task.settings.ruleFiles = paths.map Path.normal ↔
        ∀ p ∈ paths, ',' ∉ (Path.normal p).toList ∧ trimText (Path.normal p) = Path.normal p)) ∧
    (((prepare a verbose : StateM Store _).run s).1 = .error .noRules →
      ∀ p ∈ paths, listedPaths (Path.normal p) = []) := by
  have hprepared := (ensures_prepare a verbose s.context s rfl).2
  refine ⟨fun task htask => ?_, fun hmissed p hp => ?_⟩
  · have hfiles := ruleFiles_of_loads hne ha (hprepared.loads task htask)
    refine ⟨hfiles, ?_⟩
    rw [hfiles, ← listedPaths_intercalate (by simpa),
      listedPaths_intercalate_eq_self_iff (by simpa)]
    simp [isListable_normal_iff]
  · obtain ⟨settings, hloads, hempty⟩ := hprepared.noRules hmissed
    rw [ruleFiles_of_loads hne ha hloads, List.flatMap_eq_nil_iff] at hempty
    exact hempty _ (List.mem_map_of_mem hp)

/-- One rule file with a plain path. -/
theorem prepare_reads_given_plain :
    let a : InferArguments :=
      { facts := "facts.json", pivot := "Ann", rules := some ["rules//match.rules"] }
    let s := oneFactStore "rules/match.rules" "livedIn(PERSON,COUNTRY)\n"
    ∃ task, ((prepare a false : StateM Store _).run s).1 = .ok task ∧
      task.settings.ruleFiles = ["rules/match.rules"] := by
  intro a s
  have hready : ((prepare a false : StateM Store _).run s).1.isOk := by decide +kernel
  have hgiven := prepare_reads_given (List.cons_ne_nil "rules//match.rules" []) (a := a) rfl false s
  generalize ((prepare a false : StateM Store _).run s).1 = prepared at hready hgiven ⊢
  cases prepared with
  | error fault => cases hready
  | ok task =>
    refine ⟨task, rfl, ((hgiven.1 task rfl).2.2 ?_).trans ?_⟩
    · simp only [List.forall_mem_singleton]
      decide +kernel
    · decide +kernel

/-- A path with a comma in it is taken for two. -/
theorem not_prepare_reads_given_comma :
    let a : InferArguments := { facts := "facts.json", pivot := "Ann", rules := some ["a,b.rules"] }
    let s := oneFactStore "a,b.rules" "livedIn(PERSON,COUNTRY)\n"
    ((prepare a false : StateM Store _).run s).1.toOption.map (fun task => task.settings.ruleFiles) =
      some ["a", "b.rules"] := by
  decide +kernel

end Command

end FactNet
