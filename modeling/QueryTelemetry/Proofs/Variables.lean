import QueryTelemetry.Proofs.Respelling
import QueryTelemetry.Settings

/-!
# Variables of an environment

A variable is looked at for an integer or for a flag. It gives the integer that its text spells,
unless that is too low, and the flag that one of eight words stands for. Whatever else its text is,
it counts as if the variable were not set, and the default is taken. What a text spells is stated
without the readers.
-/

set_option autoImplicit false

namespace QueryTelemetry
open QueryTelemetry.Text

namespace Environment

def Spells (value : Option String) (n : Int) : Prop :=
  ∃ v, value = some v ∧ Integer.Spells v.toList n

/-- What a variable gives for an integer: the one that it spells, unless that is below the least one
allowed, and else the default. -/
inductive Gives (value : Option String) (least? : Option Int) (default : Int) : Int → Prop
  | spelled {n : Int} : Spells value n → (∀ least ∈ least?, least ≤ n) →
      Gives value least? default n
  | otherwise : (∀ n, Spells value n → ∃ least ∈ least?, n < least) →
      Gives value least? default default

def Says (value : Option String) (words : List String) : Prop :=
  ∃ v, value = some v ∧ ∃ word ∈ words, AnyCase word v

def trueWords : List String := ["1", "true", "yes", "on"]
def falseWords : List String := ["0", "false", "no", "off"]

inductive Decides (value : Option String) (default : Bool) : Bool → Prop
  | yes : Says value trueWords → Decides value default true
  | no : Says value falseWords → Decides value default false
  | otherwise : ¬ Says value trueWords → ¬ Says value falseWords → Decides value default default

section Integers
variable {value : Option String} {least? : Option Int} {default : Int}

theorem spells_iff (n : Int) : Spells value n ↔ value.bind Integer.read? = some n := by
  simp only [Spells, ← Integer.read_iff, Option.bind_eq_some_iff]

theorem Spells.unique {m n : Int} (hm : Spells value m) (hn : Spells value n) : m = n :=
  Option.some.inj (((spells_iff m).mp hm).symm.trans ((spells_iff n).mp hn))

theorem integer_gives (value : Option String) (least? : Option Int) (default : Int) :
    Gives value least? default (integer value default least?) := by
  unfold integer
  cases hread : value.bind Integer.read? with
  | none =>
    refine .otherwise fun n hn => ?_
    rw [spells_iff, hread] at hn
    cases hn
  | some n =>
    have hn : Spells value n := (spells_iff n).mpr hread
    cases least? with
    | none => exact .spelled hn (by simp)
    | some least =>
      dsimp only
      split
      · rename_i hlt
        exact .otherwise fun m hm => ⟨least, rfl, hm.unique hn ▸ hlt⟩
      · rename_i hge
        refine .spelled hn fun l hl => ?_
        cases hl
        exact not_lt.mp hge

theorem Gives.unique {m n : Int} (hm : Gives value least? default m)
    (hn : Gives value least? default n) : m = n := by
  cases hm with
  | spelled hm hleast =>
    cases hn with
    | spelled hn _ => exact hm.unique hn
    | otherwise hnone =>
      obtain ⟨least, hl, hlt⟩ := hnone _ hm
      exact absurd (hleast least hl) (not_le.mpr hlt)
  | otherwise hnone =>
    cases hn with
    | spelled hn hleast =>
      obtain ⟨least, hl, hlt⟩ := hnone _ hn
      exact absurd (hleast least hl) (not_le.mpr hlt)
    | otherwise _ => rfl

theorem Gives.least_le {n least : Int} (h : Gives value (some least) default n)
    (hdefault : least ≤ default) : least ≤ n := by
  cases h with
  | spelled _ hleast => exact hleast least rfl
  | otherwise _ => exact hdefault

theorem integer_iff (n : Int) :
    integer value default least? = n ↔ Gives value least? default n := by
  constructor
  · rintro rfl
    exact integer_gives value least? default
  · exact fun h => (integer_gives value least? default).unique h

end Integers

section Flags
variable {value : Option String} {default : Bool}

/-- For a word in lower case, without the letter that is the lower case of two. -/
theorem any_case_iff {word : List Char} (hw : Plain word) (hlower : word.map Char.toLower = word)
    (hk : 'k' ∉ word) (s : String) :
    lowerWord s = String.ofList word ↔ Nonempty (Cased word s.toList) := by
  constructor
  · intro h
    obtain ⟨before, after, hlayout, hbefore, hafter⟩ := trim_split isBlank s.toList
    have hword : (trim isBlank s.toList).map lower = word := String.ofList_injective h
    refine ⟨⟨before, _, after, hlayout, hbefore, hafter, ?_⟩⟩
    rw [hlower, ← hword]
    apply List.map_congr_left
    intro c hc
    have hmem : lower c ∈ word := hword ▸ List.mem_map_of_mem hc
    unfold lower at hmem ⊢
    split at hmem
    · exact absurd hmem hk
    · rename_i hc
      rw [if_neg hc]
  · rintro ⟨h⟩
    rw [h.lower_word hw, hlower]

theorem word_iff : ∀ word ∈ trueWords ++ falseWords, ∀ s, lowerWord s = word ↔ AnyCase word s := by
  have hall : ∀ word ∈ trueWords ++ falseWords, Plain word.toList ∧
      word.toList.map Char.toLower = word.toList ∧ 'k' ∉ word.toList := by
    simp only [trueWords, falseWords, List.cons_append, List.nil_append, List.forall_mem_cons]
    refine ⟨?_, ?_, ?_, ?_, ?_, ?_, ?_, ?_, by simp⟩ <;>
      exact ⟨plain_of_all (by decide) (by decide) (by decide), by decide, by decide⟩
  intro word hmem s
  obtain ⟨hplain, hlower, hk⟩ := hall word hmem
  have h := any_case_iff hplain hlower hk s
  rwa [String.ofList_toList] at h

theorem not_says_none (words : List String) : ¬ Says none words := by
  rintro ⟨v, hv, -⟩
  cases hv

theorem says_some_iff {words : List String}
    (hwords : ∀ word ∈ words, word ∈ trueWords ++ falseWords) (v : String) :
    Says (some v) words ↔ lowerWord v ∈ words := by
  constructor
  · rintro ⟨_, ⟨⟩, word, hmem, h⟩
    exact (word_iff word (hwords word hmem) v).mpr h ▸ hmem
  · intro hmem
    exact ⟨v, rfl, _, hmem, (word_iff _ (hwords _ hmem) v).mp rfl⟩

theorem says_true (v : String) : Says (some v) trueWords ↔ lowerWord v ∈ trueWords :=
  says_some_iff (fun _ => List.mem_append_left falseWords) v

theorem says_false (v : String) : Says (some v) falseWords ↔ lowerWord v ∈ falseWords :=
  says_some_iff (fun _ => List.mem_append_right trueWords) v

theorem flag_decides (value : Option String) (default : Bool) :
    Decides value default (flag value default) := by
  cases value with
  | none => exact .otherwise (not_says_none _) (not_says_none _)
  | some v =>
    simp only [flag, List.contains_iff_mem]
    split
    · rename_i hyes
      exact .yes ((says_true v).mpr hyes)
    · rename_i hyes
      split
      · rename_i hno
        exact .no ((says_false v).mpr hno)
      · rename_i hno
        exact .otherwise (mt (says_true v).mp hyes) (mt (says_false v).mp hno)

theorem says_one (h : Says value trueWords) : ¬ Says value falseWords := by
  have hapart : ∀ word ∈ trueWords, word ∉ falseWords := by decide
  cases value with
  | none => exact absurd h (not_says_none _)
  | some v =>
    rw [says_true] at h
    rw [says_false]
    exact hapart _ h

theorem Decides.unique {a b : Bool} (ha : Decides value default a) (hb : Decides value default b) :
    a = b := by
  cases ha with
  | yes hyes =>
    cases hb with
    | yes _ => rfl
    | no hno => exact absurd hno (says_one hyes)
    | otherwise hyes' _ => exact absurd hyes hyes'
  | no hno =>
    cases hb with
    | yes hyes => exact absurd hno (says_one hyes)
    | no _ => rfl
    | otherwise _ hno' => exact absurd hno hno'
  | otherwise hyes hno =>
    cases hb with
    | yes hyes' => exact absurd hyes' hyes
    | no hno' => exact absurd hno' hno
    | otherwise _ _ => rfl

theorem flag_iff (b : Bool) : flag value default = b ↔ Decides value default b := by
  constructor
  · rintro rfl
    exact flag_decides value default
  · exact fun h => (flag_decides value default).unique h

end Flags

end Environment

end QueryTelemetry
