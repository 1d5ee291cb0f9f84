import FileHolders.Command
import Mathlib.Data.List.Induction

/-!
# Which command lines are read

A word of a command line asks for help, switches a flag on, is an option that nobody knows or names
a path.  A word decides that the command line is refused if it asks for help, is unknown or names a
path after another one, and the first such word tells why.  Where no word decides, all words are
read, and what is asked for depends only on the path and on the flags that occur.

    r.Of words → (r.add w = .error f ↔ Decides words w f)                      (add_eq_error_iff)
    Undisputed words → ∃ r, words.foldlM Reading.add {} = .ok r ∧ r.Of words
                                                                     (exists_reading_of_undisputed)
    parse words = e ↔ Verdict words e                                              (parse_eq_iff)
    (∃ a, parse words = .ok a) ↔ Acceptable words                        (exists_parse_eq_ok_iff)
-/

namespace FileHolders.Arguments

/-! ## Words -/

/-- What a command line can switch on. -/
inductive Flag where
  | partialMatch
  | includeSelf
  | json
  | verbose
deriving DecidableEq, Repr

namespace Flag

/-- The words that switch a flag on. -/
def spellings : Flag → List String
  | partialMatch => ["--partial"]
  | includeSelf => ["--include-self"]
  | json => ["--json"]
  | verbose => ["--verbose", "-v"]

/-- A flag is switched on by one of the words. -/
def Given (flag : Flag) (words : List String) : Prop := ∃ w ∈ words, w ∈ flag.spellings

/-- Whether a command line asks for a flag. -/
def isSet (a : Arguments) : Flag → Bool
  | partialMatch => a.partialMatch
  | includeSelf => a.includeSelf
  | json => a.json
  | verbose => a.verbose

/-- Whether a flag is on after what was read so far. -/
def isRead (r : Reading) : Flag → Bool
  | partialMatch => r.partialMatch
  | includeSelf => r.includeSelf
  | json => r.json
  | verbose => r.verbose

/-- What the words that switch a flag on are taken for. -/
def word : Flag → Word
  | partialMatch => .partialFlag
  | includeSelf => .includeSelfFlag
  | json => .jsonFlag
  | verbose => .verboseFlag

theorem word_injective {f g : Flag} (h : f.word = g.word) : f = g := by
  cases f <;> cases g <;> simp_all [word]

end Flag

/-- A word that begins with two dashes. -/
def IsOption (w : String) : Prop := "--".toList <+: w.toList

/-- The options that are known, besides the one for help. -/
def options : List String := ["--partial", "--include-self", "--json", "--verbose"]

def AsksHelp (w : String) : Prop := w = "--help" ∨ w = "-h"

def IsUnknown (w : String) : Prop := IsOption w ∧ ¬ AsksHelp w ∧ w ∉ options

/-- Every word names a path that begins with no two dashes and is none of the short flags. -/
def IsPath (w : String) : Prop := ¬ IsOption w ∧ w ≠ "-v" ∧ w ≠ "-h"

instance : DecidablePred IsOption := fun w => inferInstanceAs (Decidable ("--".toList <+: w.toList))

instance : DecidablePred IsPath := fun w =>
  inferInstanceAs (Decidable (¬ IsOption w ∧ w ≠ "-v" ∧ w ≠ "-h"))

theorem isOption_iff {w : String} : IsOption w ↔ "--".toList.isPrefixOf w.toList = true :=
  List.isPrefixOf_iff_prefix.symm

/-! ## What a word is taken for -/

/-- The words that are of a kind. -/
inductive Word.Fits : Word → String → Prop
  | flag {w : String} (flag : Flag) (h : w ∈ flag.spellings) : Fits flag.word w
  | help {w : String} (h : AsksHelp w) : Fits .help w
  | unknown {w : String} (h : IsUnknown w) : Fits .unknown w
  | path {w : String} (h : IsPath w) : Fits .path w

section

variable {w : String}

theorem mem_options_of_mem_spellings {flag : Flag} (h : w ∈ flag.spellings) :
    w ∈ options ∨ w = "-v" := by
  cases flag <;> simp only [Flag.spellings, List.mem_cons, List.not_mem_nil, or_false] at h
  · exact .inl (by rw [h]; decide)
  · exact .inl (by rw [h]; decide)
  · exact .inl (by rw [h]; decide)
  · exact h.imp_left fun h => by rw [h]; decide

theorem isOption_of_mem_options (h : w ∈ options) : IsOption w := by
  revert w
  unfold options
  decide

theorem exists_spelling_of_mem_options (h : w ∈ options) : ∃ flag : Flag, w ∈ flag.spellings := by
  simp only [options, List.mem_cons, List.not_mem_nil, or_false] at h
  rcases h with rfl | rfl | rfl | rfl
  · exact ⟨.partialMatch, by decide⟩
  · exact ⟨.includeSelf, by decide⟩
  · exact ⟨.json, by decide⟩
  · exact ⟨.verbose, by decide⟩

/-- A word that switches no flag on and asks for no help is told by its first two characters. -/
theorem of_eq_ite (hf : ∀ flag : Flag, w ∉ flag.spellings) (hh : ¬ AsksHelp w) :
    Word.of w = if IsOption w then .unknown else .path := by
  have hpartial : w ≠ "--partial" := fun h => hf .partialMatch (List.mem_singleton.mpr h)
  have hself : w ≠ "--include-self" := fun h => hf .includeSelf (List.mem_singleton.mpr h)
  have hjson : w ≠ "--json" := fun h => hf .json (List.mem_singleton.mpr h)
  have hverbose : ¬ (w = "--verbose" ∨ w = "-v") := by
    simpa [Flag.spellings] using hf .verbose
  unfold AsksHelp at hh
  rw [Word.of, if_neg hpartial, if_neg hself, if_neg hjson, if_neg hverbose, if_neg hh]
  simp only [isOption_iff]

theorem of_eq_of_fits {k : Word} (h : k.Fits w) : Word.of w = k := by
  cases h with
  | flag flag h =>
    cases flag <;> simp only [Flag.spellings, List.mem_cons, List.not_mem_nil, or_false] at h
    · rw [h]; decide
    · rw [h]; decide
    · rw [h]; decide
    · rcases h with rfl | rfl <;> decide
  | help h => rcases h with rfl | rfl <;> decide
  | unknown h =>
    obtain ⟨ho, hh, hn⟩ := h
    rw [of_eq_ite _ hh, if_pos ho]
    intro flag hw
    rcases mem_options_of_mem_spellings hw with hw | rfl
    · exact hn hw
    · revert ho; decide
  | path h =>
    obtain ⟨ho, hv, hh⟩ := h
    rw [of_eq_ite, if_neg ho]
    · intro flag hw
      rcases mem_options_of_mem_spellings hw with hw | hw
      · exact ho (isOption_of_mem_options hw)
      · exact hv hw
    · rintro (rfl | hw)
      · revert ho; decide
      · exact hh hw

/-- No word is of two kinds. -/
theorem Word.Fits.unique {j k : Word} (hj : j.Fits w) (hk : k.Fits w) : j = k :=
  (of_eq_of_fits hj).symm.trans (of_eq_of_fits hk)

/-- Every word is of some kind. -/
theorem exists_fits (w : String) : ∃ k : Word, k.Fits w := by
  by_cases hh : AsksHelp w
  · exact ⟨_, .help hh⟩
  · by_cases ho : IsOption w
    · by_cases hn : w ∈ options
      · obtain ⟨flag, hw⟩ := exists_spelling_of_mem_options hn
        exact ⟨_, .flag flag hw⟩
      · exact ⟨_, .unknown ⟨ho, hh, hn⟩⟩
    · by_cases hv : w = "-v"
      · exact ⟨_, .flag .verbose (by rw [hv]; decide)⟩
      · exact ⟨_, .path ⟨ho, hv, fun hw => hh (.inr hw)⟩⟩

/-- No word switches two flags on. -/
theorem mem_spellings_iff {f g : Flag} (h : w ∈ g.spellings) : w ∈ f.spellings ↔ f = g := by
  constructor
  · intro hf
    exact Flag.word_injective ((Word.Fits.flag f hf).unique (.flag g h))
  · rintro rfl
    exact h

theorem notMem_spellings_of_isPath (h : IsPath w) (flag : Flag) : w ∉ flag.spellings := by
  intro hw
  have hword := (Word.Fits.flag flag hw).unique (.path h)
  cases flag <;> cases hword

/-- Paths and flags are not refused for themselves. -/
theorem known_of_isPath_or (h : IsPath w ∨ ∃ flag : Flag, w ∈ flag.spellings) :
    ¬ AsksHelp w ∧ (IsOption w → w ∈ options) := by
  rcases h with h | ⟨flag, h⟩
  · refine ⟨fun hh => ?_, fun ho => absurd ho h.1⟩
    cases (Word.Fits.help hh).unique (.path h)
  · refine ⟨fun hh => ?_, fun ho => ?_⟩
    · have hword := (Word.Fits.flag flag h).unique (.help hh)
      cases flag <;> cases hword
    · rcases mem_options_of_mem_spellings h with hw | rfl
      · exact hw
      · revert ho
        decide

end

theorem Flag.given_concat {flag : Flag} {words : List String} {w : String} :
    flag.Given (words ++ [w]) ↔ flag.Given words ∨ w ∈ flag.spellings := by
  simp [Given, or_and_right, exists_or]

/-! ## One more word -/

/-- A word is the reason why a command line is refused, after the words before it. -/
inductive Decides (before : List String) (w : String) : ArgumentFault → Prop
  | help (h : AsksHelp w) : Decides before w .helpAsked
  | unknown (h : IsUnknown w) : Decides before w (.unknownOption w)
  | second (h : IsPath w) (hp : ∃ p ∈ before, IsPath p) : Decides before w .secondPath

namespace Reading

/-- What was read, with one more flag switched on. -/
def set (r : Reading) : Flag → Reading
  | .partialMatch => { r with partialMatch := true }
  | .includeSelf => { r with includeSelf := true }
  | .json => { r with json := true }
  | .verbose => { r with verbose := true }

theorem path_set (r : Reading) (flag : Flag) : (r.set flag).path = r.path := by
  cases flag <;> rfl

theorem isRead_set (r : Reading) (f g : Flag) :
    f.isRead (r.set g) = true ↔ f.isRead r = true ∨ f = g := by
  cases f <;> cases g <;> simp [Flag.isRead, set]

theorem add_of_flag {w : String} {flag : Flag} (h : w ∈ flag.spellings) (r : Reading) :
    r.add w = .ok (r.set flag) := by
  rw [add, of_eq_of_fits (.flag flag h)]
  cases flag <;> rfl

theorem add_of_path {w : String} (h : IsPath w) (r : Reading) :
    r.add w = if r.path.isSome then .error .secondPath else .ok { r with path := some w } := by
  rw [add, of_eq_of_fits (.path h)]

/-- What was read is what the words say: the path, and the flags that occur. -/
structure Of (r : Reading) (words : List String) : Prop where
  path : words.filter IsPath = r.path.toList
  flags : ∀ flag : Flag, flag.isRead r = true ↔ flag.Given words

variable {r s : Reading} {words : List String} {w : String} {f : ArgumentFault}

theorem Of.isSome_path_iff (hr : r.Of words) : r.path.isSome = true ↔ ∃ p ∈ words, IsPath p := by
  have hpath := hr.path
  cases hp : r.path with
  | none =>
    rw [hp, Option.toList_none, List.filter_eq_nil_iff] at hpath
    simpa using hpath
  | some p =>
    have hmem : p ∈ words.filter IsPath := by
      rw [hpath, hp]
      exact List.mem_singleton_self p
    have hword := List.mem_filter.mp hmem
    exact iff_of_true rfl ⟨p, hword.1, of_decide_eq_true hword.2⟩

theorem add_eq_error_iff (hr : r.Of words) : r.add w = .error f ↔ Decides words w f := by
  constructor
  · intro h
    obtain ⟨k, hk⟩ := exists_fits w
    cases hk with
    | flag flag hw =>
      rw [add_of_flag hw] at h
      cases h
    | help hw =>
      rw [add, of_eq_of_fits (.help hw)] at h
      cases h
      exact .help hw
    | unknown hw =>
      rw [add, of_eq_of_fits (.unknown hw)] at h
      cases h
      exact .unknown hw
    | path hw =>
      rw [add_of_path hw] at h
      split at h
      · rename_i hsome
        cases h
        exact .second hw (hr.isSome_path_iff.mp hsome)
      · cases h
  · intro h
    cases h with
    | help hw => rw [add, of_eq_of_fits (.help hw)]
    | unknown hw => rw [add, of_eq_of_fits (.unknown hw)]
    | second hw hp => rw [add_of_path hw, if_pos (hr.isSome_path_iff.mpr hp)]

theorem Of.add (hr : r.Of words) (h : r.add w = .ok s) : s.Of (words ++ [w]) := by
  obtain ⟨k, hk⟩ := exists_fits w
  cases hk with
  | flag flag hw =>
    rw [add_of_flag hw] at h
    cases h
    constructor
    · have hpath : ¬ IsPath w := fun hp => notMem_spellings_of_isPath hp flag hw
      rw [List.filter_append, hr.path, path_set]
      simp [hpath]
    · intro g
      rw [isRead_set, hr.flags, Flag.given_concat, mem_spellings_iff hw]
  | help hw =>
    rw [Reading.add, of_eq_of_fits (.help hw)] at h
    cases h
  | unknown hw =>
    rw [Reading.add, of_eq_of_fits (.unknown hw)] at h
    cases h
  | path hw =>
    rw [add_of_path hw] at h
    split at h
    · cases h
    · rename_i hnone
      cases h
      constructor
      · rw [List.filter_append, hr.path, Option.not_isSome_iff_eq_none.mp hnone]
        simp [hw]
      · intro g
        rw [Flag.given_concat, or_iff_left (notMem_spellings_of_isPath hw g), ← hr.flags]
        cases g <;> rfl

end Reading

/-! ## All words -/

/-- None of the words decides. -/
def Undisputed (words : List String) : Prop :=
  ∀ before w after, words = before ++ w :: after → ∀ f, ¬ Decides before w f

section

variable {words before after : List String} {w : String} {f : ArgumentFault}

theorem undisputed_concat :
    Undisputed (words ++ [w]) ↔ Undisputed words ∧ ∀ f, ¬ Decides words w f := by
  constructor
  · intro h
    constructor
    · intro before v after hwords f
      exact h before v (after ++ [w]) (by rw [hwords]; simp) f
    · exact h words w [] rfl
  · rintro ⟨hwords, hw⟩ before v after heq f
    rcases List.eq_nil_or_concat after with rfl | ⟨after, u, rfl⟩
    · obtain ⟨rfl, hv⟩ := List.append_inj' heq rfl
      cases hv
      exact hw f
    · have hcut : words ++ [w] = before ++ v :: after ++ [u] := by rw [heq]; simp
      exact hwords before v after (List.append_inj' hcut rfl).1 f

theorem undisputed_nil : Undisputed [] := by
  intro before w after h
  simp at h

theorem foldlM_append_of_ok {r : Reading} (h : words.foldlM Reading.add {} = .ok r) :
    (words ++ after).foldlM Reading.add {} = after.foldlM Reading.add r := by
  rw [List.foldlM_append, h]
  rfl

/-- A command line with no word that decides is read to its end. -/
theorem exists_reading_of_undisputed (h : Undisputed words) :
    ∃ r : Reading, words.foldlM Reading.add {} = .ok r ∧ r.Of words := by
  induction words using List.reverseRecOn with
  | nil => exact ⟨{}, rfl, rfl, fun flag => by cases flag <;> simp [Flag.isRead, Flag.Given]⟩
  | append_singleton words w ih =>
    obtain ⟨hwords, hw⟩ := undisputed_concat.mp h
    obtain ⟨r, hfold, hr⟩ := ih hwords
    cases hadd : r.add w with
    | error f => exact absurd ((Reading.add_eq_error_iff hr).mp hadd) (hw f)
    | ok s =>
      refine ⟨s, ?_, hr.add hadd⟩
      rw [foldlM_append_of_ok hfold, List.foldlM_cons, hadd]
      rfl

/-- Some word is the first one that decides, if any does. -/
theorem undisputed_or_decided (words : List String) : Undisputed words ∨
    ∃ before w after f, words = before ++ w :: after ∧ Undisputed before ∧ Decides before w f := by
  induction words using List.reverseRecOn with
  | nil => exact .inl undisputed_nil
  | append_singleton words w ih =>
    rcases ih with hwords | ⟨before, v, after, f, rfl, hbefore, hv⟩
    · by_cases hw : ∃ f, Decides words w f
      · obtain ⟨f, hw⟩ := hw
        exact .inr ⟨words, w, [], f, rfl, hwords, hw⟩
      · exact .inl (undisputed_concat.mpr ⟨hwords, not_exists.mp hw⟩)
    · exact .inr ⟨before, v, after ++ [w], f, by simp, hbefore, hv⟩

/-- The first word that decides makes the command line fail for its reason. -/
theorem parse_of_decides (h : Undisputed before) (hw : Decides before w f) :
    parse (before ++ w :: after) = .error f := by
  obtain ⟨r, hfold, hr⟩ := exists_reading_of_undisputed h
  rw [parse, foldlM_append_of_ok hfold, List.foldlM_cons, (Reading.add_eq_error_iff hr).mpr hw]
  rfl

/-- What a command line asks for is what its words say. -/
structure Sums (a : Arguments) (words : List String) : Prop where
  target : words.filter IsPath = [a.target]
  flags : ∀ flag : Flag, flag.isSet a = true ↔ flag.Given words

theorem Sums.unique {a b : Arguments} (ha : a.Sums words) (hb : b.Sums words) : a = b := by
  have htarget : a.target = b.target := by
    have hlist := ha.target.symm.trans hb.target
    exact (List.cons.inj hlist).1
  have hflag : ∀ flag : Flag, flag.isSet a = flag.isSet b := fun flag =>
    Bool.eq_iff_iff.mpr ((ha.flags flag).trans (hb.flags flag).symm)
  have hpartial : a.partialMatch = b.partialMatch := hflag .partialMatch
  have hself : a.includeSelf = b.includeSelf := hflag .includeSelf
  have hjson : a.json = b.json := hflag .json
  have hverbose : a.verbose = b.verbose := hflag .verbose
  cases a
  cases b
  simp_all

/-- What the words of a command line come to. -/
inductive Verdict (words : List String) : Except ArgumentFault Arguments → Prop
  | accepted {a : Arguments} (h : Undisputed words) (ha : a.Sums words) : Verdict words (.ok a)
  | decided {before after : List String} {w : String} {f : ArgumentFault}
      (hwords : words = before ++ w :: after) (h : Undisputed before) (hw : Decides before w f) :
      Verdict words (.error f)
  | noPath (h : Undisputed words) (hp : ∀ w ∈ words, ¬ IsPath w) : Verdict words (.error .noPath)

theorem verdict_of_undisputed (h : Undisputed words) : Verdict words (parse words) := by
  obtain ⟨r, hfold, hr⟩ := exists_reading_of_undisputed h
  have hparse : parse words = r.finish := by
    rw [parse, hfold]
    rfl
  rw [hparse, Reading.finish]
  cases hpath : r.path with
  | none =>
    refine .noPath h fun w hw hp => ?_
    have hsome := hr.isSome_path_iff.mpr ⟨w, hw, hp⟩
    rw [hpath] at hsome
    cases hsome
  | some target =>
    refine .accepted h ⟨?_, fun flag => ?_⟩
    · rw [hr.path, hpath]
      rfl
    · rw [← hr.flags]
      cases flag <;> rfl

theorem verdict_parse (words : List String) : Verdict words (parse words) := by
  rcases undisputed_or_decided words with h | ⟨before, w, after, f, rfl, h, hw⟩
  · exact verdict_of_undisputed h
  · rw [parse_of_decides h hw]
    exact .decided rfl h hw

theorem exists_isPath_of_filter {target : String} (h : words.filter IsPath = [target]) :
    ∃ w ∈ words, IsPath w := by
  have hmem : target ∈ words.filter IsPath := by
    rw [h]
    exact List.mem_singleton_self target
  obtain ⟨hw, hp⟩ := List.mem_filter.mp hmem
  exact ⟨target, hw, of_decide_eq_true hp⟩

/-- The words come to one thing only, and so they are read. -/
theorem parse_eq_iff {e : Except ArgumentFault Arguments} : parse words = e ↔ Verdict words e := by
  constructor
  · rintro rfl
    exact verdict_parse words
  · intro h
    cases h with
    | accepted h ha =>
      have hparse := verdict_parse words
      generalize parse words = e at hparse
      cases hparse with
      | accepted _ hb => rw [hb.unique ha]
      | decided hwords _ hw => exact absurd hw (h _ _ _ hwords _)
      | noPath _ hp =>
        obtain ⟨w, hw, hpath⟩ := exists_isPath_of_filter ha.target
        exact absurd hpath (hp w hw)
    | decided hwords h hw => rw [hwords, parse_of_decides h hw]
    | noPath h hp =>
      have hparse := verdict_parse words
      generalize parse words = e at hparse
      cases hparse with
      | accepted _ hb =>
        obtain ⟨w, hw, hpath⟩ := exists_isPath_of_filter hb.target
        exact absurd hpath (hp w hw)
      | decided hwords _ hw => exact absurd hw (h _ _ _ hwords _)
      | noPath _ _ => rfl

/-! ## The command lines that are read -/

theorem forall_not_decides_iff : (∀ f, ¬ Decides words w f) ↔
    ¬ AsksHelp w ∧ (IsOption w → w ∈ options) ∧ (IsPath w → ∀ p ∈ words, ¬ IsPath p) := by
  constructor
  · intro h
    have hhelp : ¬ AsksHelp w := fun hw => h _ (.help hw)
    refine ⟨hhelp, fun ho => ?_, fun hw p hp hpath => h _ (.second hw ⟨p, hp, hpath⟩)⟩
    by_contra hn
    exact h _ (.unknown ⟨ho, hhelp, hn⟩)
  · rintro ⟨hhelp, hoption, hpath⟩ f hw
    cases hw with
    | help hw => exact hhelp hw
    | unknown hw => exact hw.2.2 (hoption hw.1)
    | second hw hp =>
      obtain ⟨p, hp, hpp⟩ := hp
      exact hpath hw p hp hpp

theorem length_filter_concat_le_one_iff : ((words ++ [w]).filter IsPath).length ≤ 1 ↔
    (words.filter IsPath).length ≤ 1 ∧ (IsPath w → ∀ p ∈ words, ¬ IsPath p) := by
  have hnone : (words.filter IsPath).length = 0 ↔ ∀ p ∈ words, ¬ IsPath p := by
    rw [List.length_eq_zero_iff, List.filter_eq_nil_iff]
    simp only [decide_eq_true_eq]
  rw [List.filter_append, List.length_append]
  by_cases hw : IsPath w
  · have hone : ([w].filter IsPath).length = 1 := by simp [hw]
    rw [hone, imp_iff_right hw, ← hnone]
    omega
  · have hzero : ([w].filter IsPath).length = 0 := by simp [hw]
    rw [hzero, Nat.add_zero, and_iff_left (fun hp => absurd hp hw)]

theorem undisputed_iff : Undisputed words ↔
    (∀ w ∈ words, ¬ AsksHelp w) ∧ (∀ w ∈ words, IsOption w → w ∈ options) ∧
      (words.filter IsPath).length ≤ 1 := by
  induction words using List.reverseRecOn with
  | nil => simp [undisputed_nil]
  | append_singleton words w ih =>
    rw [undisputed_concat, ih, forall_not_decides_iff, length_filter_concat_le_one_iff]
    simp only [List.forall_mem_append, List.forall_mem_singleton]
    tauto

/-- The command lines that are read: nobody asks for help, every option is known, and there is one
path. -/
structure Acceptable (words : List String) : Prop where
  help : ∀ w ∈ words, ¬ AsksHelp w
  options : ∀ w ∈ words, IsOption w → w ∈ options
  path : ∃ target, words.filter IsPath = [target]

theorem Acceptable.undisputed (h : Acceptable words) : Undisputed words := by
  obtain ⟨target, htarget⟩ := h.path
  exact undisputed_iff.mpr ⟨h.help, h.options, by rw [htarget]; exact Nat.le_refl 1⟩

theorem exists_parse_eq_ok_iff : (∃ a, parse words = .ok a) ↔ Acceptable words := by
  constructor
  · rintro ⟨a, ha⟩
    rw [parse_eq_iff] at ha
    cases ha with
    | accepted h ha =>
      obtain ⟨hhelp, hoptions, -⟩ := undisputed_iff.mp h
      exact ⟨hhelp, hoptions, a.target, ha.target⟩
  · intro h
    obtain ⟨target, htarget⟩ := h.path
    cases hparse : parse words with
    | ok a => exact ⟨a, rfl⟩
    | error f =>
      rw [parse_eq_iff] at hparse
      cases hparse with
      | decided hwords _ hw => exact absurd hw (h.undisputed _ _ _ hwords _)
      | noPath _ hp =>
        obtain ⟨w, hw, hpath⟩ := exists_isPath_of_filter htarget
        exact absurd hpath (hp w hw)

theorem sums_of_parse {a : Arguments} (h : parse words = .ok a) : a.Sums words := by
  rw [parse_eq_iff] at h
  cases h with
  | accepted _ ha => exact ha

/-- Words in another order come to the same. -/
theorem parse_of_perm {a : Arguments} {other : List String} (h : parse words = .ok a)
    (hperm : words.Perm other) : parse other = .ok a := by
  have hsums := sums_of_parse h
  obtain ⟨hhelp, hoptions, -⟩ := exists_parse_eq_ok_iff.mp ⟨a, h⟩
  have hpath : other.filter IsPath = [a.target] := by
    have hfilter := hperm.filter IsPath
    rw [hsums.target] at hfilter
    exact List.singleton_perm.mp hfilter |>.symm
  have hother : Acceptable other :=
    ⟨fun w hw => hhelp w (hperm.mem_iff.mpr hw), fun w hw => hoptions w (hperm.mem_iff.mpr hw),
      a.target, hpath⟩
  refine parse_eq_iff.mpr (.accepted hother.undisputed ⟨hpath, fun flag => ?_⟩)
  rw [hsums.flags]
  exact exists_congr fun w => and_congr_left' hperm.mem_iff

/-- Words with the same path and the same flags come to the same. -/
theorem parse_of_given {a : Arguments} {other : List String} (h : parse words = .ok a)
    (hpath : other.filter IsPath = words.filter IsPath)
    (hwords : ∀ w ∈ other, IsPath w ∨ ∃ flag : Flag, w ∈ flag.spellings)
    (hflags : ∀ flag : Flag, flag.Given other ↔ flag.Given words) : parse other = .ok a := by
  have hsums := sums_of_parse h
  have htarget : other.filter IsPath = [a.target] := hpath.trans hsums.target
  have hother : Acceptable other :=
    ⟨fun w hw => (known_of_isPath_or (hwords w hw)).1,
      fun w hw => (known_of_isPath_or (hwords w hw)).2, a.target, htarget⟩
  exact parse_eq_iff.mpr (.accepted hother.undisputed
    ⟨htarget, fun flag => (hsums.flags flag).trans (hflags flag).symm⟩)

end

/-- How the words of a command line are read. -/
structure ReadByWord (words : List String) : Prop where
  accepted : (∃ a, parse words = .ok a) ↔ Acceptable words
  /-- The path is the target, and a flag is on exactly if one of its spellings occurs. -/
  sums : ∀ a, parse words = .ok a → a.Sums words
  /-- The order of the words does not matter. -/
  reordered : ∀ a other, parse words = .ok a → words.Perm other → parse other = .ok a
  /-- Flags may be given more often, or in another spelling. -/
  respelled : ∀ a other, parse words = .ok a → other.filter IsPath = words.filter IsPath →
    (∀ w ∈ other, IsPath w ∨ ∃ flag : Flag, w ∈ flag.spellings) →
    (∀ flag : Flag, flag.Given other ↔ flag.Given words) → parse other = .ok a
  /-- The first word that decides tells why a command line is refused.  Where none decides, the path
  is missing. -/
  refused : ∀ f, parse words = .error f ↔
    (∃ before w after, words = before ++ w :: after ∧ Undisputed before ∧ Decides before w f) ∨
      (Undisputed words ∧ (∀ w ∈ words, ¬ IsPath w) ∧ f = .noPath ∧ f.message = usage)

/-- Whatever the words are, the command line is read by what each of them is. -/
theorem read_by_word (words : List String) : ReadByWord words where
  accepted := exists_parse_eq_ok_iff
  sums := fun _ => sums_of_parse
  reordered := fun _ _ => parse_of_perm
  respelled := fun _ _ => parse_of_given
  refused := by
    intro f
    rw [parse_eq_iff]
    constructor
    · intro h
      cases h with
      | decided hwords h hw => exact .inl ⟨_, _, _, hwords, h, hw⟩
      | noPath h hp => exact .inr ⟨h, hp, rfl, rfl⟩
    · rintro (⟨before, w, after, hwords, h, hw⟩ | ⟨h, hp, rfl, -⟩)
      · exact .decided hwords h hw
      · exact .noPath h hp

end FileHolders.Arguments
