import Mathlib.Data.Fintype.Sum
import Mathlib.Data.List.Chain
import Mathlib.Tactic.DeriveFintype
import NumberPuzzles.Proofs.Checked
import NumberPuzzles.Puzzle.NumberWords

/-!
# A number is known from its words

The words are made of parts, and some parts begin others: "four" begins "fourteen", "eight"
begins "eighty".  All of these are units, and a unit is followed by nothing or by a name, of
the hundreds or of a scale; no name agrees with the rest of the longer part.  So the text
falls into parts in one way only.  Whoever hears the parts one after the other can add up the
number, so two numbers with the same words are the same.
-/

namespace NumberPuzzles.NumberWords

/-- The parts that words are made of. -/
inductive Part where
  /-- One to nine. -/
  | unit (index : Fin 9)
  /-- Ten to nineteen. -/
  | teen (index : Fin 10)
  /-- Twenty to ninety. -/
  | ten (index : Fin 8)
  | hundred
  | joint
  | scale (index : Fin scales.length)
  deriving DecidableEq, Fintype

namespace Part

def spelled : Part → List Char
  | unit index => (getElem ones (index.val + 1) (by change _ < 20; omega)).toList
  | teen index => (getElem ones (index.val + 10) (by change _ < 20; omega)).toList
  | ten index => (getElem tens (index.val + 2) (by change _ < 10; omega)).toList
  | hundred => "hundred".toList
  | joint => "and".toList
  | scale index => scales[index].2.toList

def isUnit : Part → Bool
  | unit _ => true
  | _ => false

/-- The names follow the numbers that they multiply. -/
def isName : Part → Bool
  | hundred | scale _ => true
  | _ => false

/-- Nothing but a name follows a unit. -/
def Follows (first second : Part) : Prop := first.isUnit → second.isName

@[simp]
theorem spelled_ne_nil : ∀ part : Part, part.spelled ≠ [] := by decide

end Part

open NumberWords.Part

/-! ## The parts of a text -/

def Diverge (left right : List Char) : Prop := ¬ left <+: right ∧ ¬ right <+: left

instance (left right : List Char) : Decidable (Diverge left right) :=
  inferInstanceAs (Decidable (_ ∧ _))

/-- A part that begins another is a unit, and what it leaves of the longer part agrees with
no name. -/
theorem begins_cases : ∀ first second : Part, first.spelled <+: second.spelled →
    first = second ∨ first.isUnit ∧ ∀ name : Part, name.isName →
      Diverge (second.spelled.drop first.spelled.length) name.spelled := by
  decide +kernel

/-- If a part begins the part that another text begins with, the two are the same: whatever
follows the first one is a name, and that does not agree with a longer part. -/
theorem head_eq {first second : Part} {later : List Part} {rest after : List Char}
    (hchain : (first :: later).IsChain Follows)
    (hspelled : second.spelled = first.spelled ++ rest)
    (hlater : later.flatMap spelled = rest ++ after) : first = second := by
  rcases begins_cases first second ⟨rest, hspelled.symm⟩ with hsame | ⟨hunit, hnames⟩
  · exact hsame
  rw [hspelled, List.drop_left] at hnames
  cases later with
  | nil =>
      -- Nothing is left of the second part, and nothing begins every name.
      obtain ⟨rfl, -⟩ := List.append_eq_nil_iff.mp hlater.symm
      exact absurd List.nil_prefix (hnames hundred rfl).1
  | cons name later =>
      have hname : name.isName := (List.isChain_cons_cons.mp hchain).1 hunit
      rw [List.flatMap_cons] at hlater
      have hagree := List.prefix_or_prefix_of_prefix (List.prefix_append rest after)
        (hlater ▸ List.prefix_append name.spelled _)
      rcases hagree with hagree | hagree
      · exact absurd hagree (hnames name hname).1
      · exact absurd hagree (hnames name hname).2

/-- A text falls into parts in one way only. -/
theorem parts_unique {left right : List Part} (hleft : left.IsChain Follows)
    (hright : right.IsChain Follows) (htext : left.flatMap spelled = right.flatMap spelled) :
    left = right := by
  induction left generalizing right with
  | nil =>
      cases right with
      | nil => rfl
      | cons part later =>
          rw [List.flatMap_nil, List.flatMap_cons] at htext
          exact absurd (List.append_eq_nil_iff.mp htext.symm).1 (spelled_ne_nil part)
  | cons first later ih =>
      cases right with
      | nil =>
          rw [List.flatMap_nil, List.flatMap_cons] at htext
          exact absurd (List.append_eq_nil_iff.mp htext).1 (spelled_ne_nil first)
      | cons second others =>
          rw [List.flatMap_cons, List.flatMap_cons] at htext
          have hsame : first = second := by
            rcases List.append_eq_append_iff.mp htext with ⟨rest, hlong, hafter⟩ |
              ⟨rest, hlong, hafter⟩
            · exact head_eq hleft hlong hafter
            · exact (head_eq hright hlong hafter).symm
          subst hsame
          have hrest := ih hleft.tail hright.tail (List.append_cancel_left htext)
          exact congrArg (first :: ·) hrest

/-! ## Hearing the parts -/

/-- What was heard: the groups with a scale, added up, and the group under way. -/
structure Heard where
  total : Nat
  group : Nat

def factor (index : Fin scales.length) : Nat := scales[index].1

/-- One more part is heard. -/
def Heard.hear : Heard → Part → Heard
  | ⟨total, group⟩, unit index => ⟨total, group + (index + 1)⟩
  | ⟨total, group⟩, teen index => ⟨total, group + (index + 10)⟩
  | ⟨total, group⟩, ten index => ⟨total, group + (index + 2) * 10⟩
  | ⟨total, group⟩, hundred => ⟨total, group * 100⟩
  | heard, joint => heard
  | ⟨total, group⟩, scale index => ⟨total + group * factor index, 0⟩

/-- The parts spell a text in which nothing but names follows the units, and lead from what
was heard before to what is heard after. -/
structure Spells (parts : List Part) (text : List Char) (before after : Heard) : Prop where
  text_eq : parts.flatMap spelled = text
  chain : parts.IsChain Follows
  heard_eq : parts.foldl Heard.hear before = after

theorem Spells.nil (heard : Heard) : Spells [] [] heard heard := ⟨rfl, .nil, rfl⟩

theorem Spells.single (part : Part) (before : Heard) :
    Spells [part] part.spelled before (before.hear part) :=
  ⟨List.append_nil _, .singleton part, rfl⟩

theorem Spells.append {left right : List Part} {text other : List Char}
    {before middle after : Heard} (hleft : Spells left text before middle)
    (hright : Spells right other middle after)
    (hjoin : (∀ part ∈ left.getLast?, part.isUnit = false) ∨ ∀ part ∈ right.head?, part.isName) :
    Spells (left ++ right) (text ++ other) before after := by
  refine ⟨?_, List.isChain_append.mpr ⟨hleft.chain, hright.chain, ?_⟩, ?_⟩
  · rw [List.flatMap_append, hleft.text_eq, hright.text_eq]
  · intro first hfirst second hsecond hunit
    rcases hjoin with hlast | hhead
    · rw [hlast first hfirst] at hunit
      cases hunit
    · exact hhead second hsecond
  · rw [List.foldl_append, hleft.heard_eq, hright.heard_eq]

/-! ## The words of a number -/

/-- An action gives a text that is heard between one point and another. -/
def Says (action : Checked (List Char)) (before after : Heard) : Prop :=
  ∃ parts text, action = .ok text ∧ Spells parts text before after

/-- The table of small words has a part for each number, and none for zero. -/
theorem ones_spells {number : Nat} (hnumber : number < ones.size) (total group : Nat) :
    ∃ parts, Spells parts ones[number].toList ⟨total, group⟩ ⟨total, group + number⟩ := by
  change number < 20 at hnumber
  have hcases : number = 0 ∨ (∃ index : Fin 9, number = index + 1) ∨
      ∃ index : Fin 10, number = index + 10 := by
    rcases Nat.lt_or_ge number 10 with hsmall | hlarge
    · rcases Nat.eq_zero_or_pos number with hzero | hpositive
      · exact .inl hzero
      · exact .inr (.inl ⟨⟨number - 1, by omega⟩, (Nat.sub_add_cancel hpositive).symm⟩)
    · exact .inr (.inr ⟨⟨number - 10, by omega⟩, (Nat.sub_add_cancel hlarge).symm⟩)
  rcases hcases with rfl | ⟨index, rfl⟩ | ⟨index, rfl⟩
  · exact ⟨[], Spells.nil _⟩
  · exact ⟨[unit index], Spells.single _ _⟩
  · exact ⟨[teen index], Spells.single _ _⟩

theorem belowHundred_says {number : Nat} (hnumber : number < 100) (total group : Nat) :
    Says (belowHundred number) ⟨total, group⟩ ⟨total, group + number⟩ := by
  by_cases hsmall : number < 20
  · obtain ⟨parts, hparts⟩ := ones_spells hsmall total group
    have hentry : Checked.entry ones number = .ok ones[number] := dif_pos hsmall
    refine ⟨parts, _, ?_, hparts⟩
    simp only [belowHundred, if_pos hsmall, hentry]
    rfl
  · have htenth : number / 10 < tens.size := by change _ < 10; omega
    have hlast : number % 10 < ones.size := by change _ < 20; omega
    have htenEntry : Checked.entry tens (number / 10) = .ok tens[number / 10] := dif_pos htenth
    have hentry : Checked.entry ones (number % 10) = .ok ones[number % 10] := dif_pos hlast
    obtain ⟨index, hindex⟩ : ∃ index : Fin 8, number / 10 = index + 2 :=
      ⟨⟨number / 10 - 2, by omega⟩, by change _ = _ - 2 + 2; omega⟩
    have hten : Spells [ten index] tens[number / 10].toList ⟨total, group⟩
        ⟨total, group + number / 10 * 10⟩ := by
      simp only [hindex]
      exact Spells.single _ _
    obtain ⟨parts, hparts⟩ := ones_spells hlast total (group + number / 10 * 10)
    have hsum : group + number = group + number / 10 * 10 + number % 10 := by omega
    refine ⟨_, _, ?_, hsum ▸ hten.append hparts (.inl (by simp [isUnit]))⟩
    simp only [belowHundred, if_neg hsmall, htenEntry, hentry]
    rfl

/-- The words in front of the last two digits end with a name or with the joint. -/
theorem hundreds_spells {count : Nat} (hpositive : 0 < count) (hdigit : count < 10)
    (hinside : count < ones.size) (rest total : Nat) :
    ∃ parts, Spells parts (ones[count].toList ++ "hundred".toList ++
        (if rest = 0 then "" else "and").toList)
      ⟨total, 0⟩ ⟨total, count * 100⟩ ∧ ∀ part ∈ parts.getLast?, part.isUnit = false := by
  obtain ⟨index, rfl⟩ : ∃ index : Fin 9, count = index + 1 :=
    ⟨⟨count - 1, by omega⟩, (Nat.sub_add_cancel hpositive).symm⟩
  have hunit : Spells [unit index] (unit index).spelled ⟨total, 0⟩ ⟨total, index + 1⟩ :=
    ⟨List.append_nil _, .singleton _, congrArg _ (Nat.zero_add _)⟩
  have hhundred := hunit.append (Spells.single hundred _) (.inr (by simp [isName]))
  split
  · exact ⟨_, hhundred.append (Spells.nil _) (.inl (by simp [isUnit])), by simp [isUnit]⟩
  · exact ⟨_, hhundred.append (Spells.single joint _) (.inl (by simp [isUnit])), by simp [isUnit]⟩

theorem belowThousand_says {number : Nat} (hnumber : number < 1000) (total : Nat) :
    Says (belowThousand number) ⟨total, 0⟩ ⟨total, number⟩ := by
  have hrest : number % 100 < 100 := Nat.mod_lt number (by decide)
  by_cases hzero : number / 100 = 0
  · obtain ⟨parts, text, htext, hparts⟩ := belowHundred_says hrest total 0
    have hself : 0 + number % 100 = number := by omega
    refine ⟨parts, text, ?_, hself ▸ hparts⟩
    simp only [belowThousand, if_pos hzero, htext]
  · have hinside : number / 100 < ones.size := by change _ < 20; omega
    have hentry : Checked.entry ones (number / 100) = .ok ones[number / 100] := dif_pos hinside
    obtain ⟨front, hfront, hend⟩ := hundreds_spells (Nat.pos_of_ne_zero hzero)
      (show number / 100 < 10 by omega) hinside (number % 100) total
    obtain ⟨parts, text, htext, hparts⟩ :=
      belowHundred_says hrest total (number / 100 * 100)
    have hsum : number / 100 * 100 + number % 100 = number := Nat.div_add_mod' number 100
    rw [hsum] at hparts
    refine ⟨_, _, ?_, hfront.append hparts (.inl hend)⟩
    simp only [belowThousand, if_neg hzero, hentry, htext]
    rfl

/-- The words of all numbers below a limit are heard as these numbers. -/
def SaysBelow (scales : List (Nat × String)) (limit : Nat) : Prop :=
  ∀ number < limit, ∀ total, ∃ after, Says (wordsFrom scales number) ⟨total, 0⟩ after ∧
    after.total + after.group = total + number

theorem saysBelow_nil : SaysBelow [] 1000 := by
  intro number hnumber total
  exact ⟨_, belowThousand_says hnumber total, rfl⟩

theorem wordsFrom_scale (index : Fin scales.length) (later : List (Nat × String))
    (number : Nat) :
    wordsFrom (scales[index] :: later) number =
      if number < factor index then wordsFrom later number
      else do
        let group ← belowThousand (number / factor index)
        return group ++ (scale index).spelled ++ (← wordsFrom later (number % factor index)) :=
  rfl

/-- A scale multiplies the group in front of it, and the numbers below it go on with the
later scales. -/
theorem SaysBelow.scale {later : List (Nat × String)} (index : Fin scales.length)
    (hlater : SaysBelow later (factor index)) (hpositive : 0 < factor index) :
    SaysBelow (scales[index] :: later) (1000 * factor index) := by
  intro number hnumber total
  rw [wordsFrom_scale]
  by_cases hsmall : number < factor index
  · rw [if_pos hsmall]
    exact hlater number hsmall total
  · rw [if_neg hsmall]
    have hgroup : number / factor index < 1000 :=
      Nat.div_lt_of_lt_mul (Nat.mul_comm 1000 _ ▸ hnumber)
    obtain ⟨front, group, hgroupText, hfront⟩ := belowThousand_says hgroup total
    have hscaled := hfront.append (Spells.single (Part.scale index) _) (.inr (by simp [isName]))
    obtain ⟨after, ⟨back, text, htext, hback⟩, hsum⟩ := hlater (number % factor index)
      (Nat.mod_lt number hpositive) (total + number / factor index * factor index)
    refine ⟨after, ⟨_, _, ?_, hscaled.append hback (.inl (by simp [isUnit]))⟩, ?_⟩
    · rw [hgroupText, htext]
      rfl
    · rw [hsum, Nat.add_assoc, Nat.div_add_mod']

theorem saysBelow_scales : SaysBelow scales (1000 * 1000000000) := by
  have hthousand := SaysBelow.scale ⟨2, by decide⟩ saysBelow_nil (by decide)
  have hmillion := SaysBelow.scale ⟨1, by decide⟩ hthousand (by decide)
  exact SaysBelow.scale ⟨0, by decide⟩ hmillion (by decide)

/-- The words of a number can be heard as the number. -/
theorem asWords_says {number : Nat} (hnumber : number < halfWord) :
    ∃ after, Says (asWords number) ⟨0, 0⟩ after ∧ after.total + after.group = number := by
  have hlimit : halfWord < 1000 * 1000000000 := by decide
  obtain ⟨after, hsays, hsum⟩ := saysBelow_scales number (by omega) 0
  exact ⟨after, hsays, hsum.trans (Nat.zero_add number)⟩

/-- Every number of 32 bits has words, no position past a table being read for them, and two
different numbers have different words: the number is known from its words, although nothing
parts them. -/
theorem words_determine_number :
    (∀ number < halfWord, ∃ text, asWords number = .ok text) ∧
      ∀ left < halfWord, ∀ right < halfWord, left ≠ right → asWords left ≠ asWords right := by
  constructor
  · intro number hnumber
    obtain ⟨-, ⟨-, text, htext, -⟩, -⟩ := asWords_says hnumber
    exact ⟨text, htext⟩
  · intro left hleft right hright hother hsame
    obtain ⟨leftHeard, ⟨leftParts, text, htext, hleftParts⟩, hleftSum⟩ := asWords_says hleft
    obtain ⟨rightHeard, ⟨rightParts, other, hotherText, hrightParts⟩, hrightSum⟩ :=
      asWords_says hright
    have htexts : text = other := by
      rw [htext, hotherText] at hsame
      exact Except.ok.inj hsame
    have hparts : leftParts = rightParts := by
      refine parts_unique hleftParts.chain hrightParts.chain ?_
      rw [hleftParts.text_eq, hrightParts.text_eq, htexts]
    have hheard : leftHeard = rightHeard := by
      rw [← hleftParts.heard_eq, hparts, hrightParts.heard_eq]
    exact hother (by rw [← hleftSum, hheard, hrightSum])

/-- Four thousand begins like fourteen thousand, and each of the two has its own words. -/
theorem words_determine_number_of_four_and_fourteen :
    4000 < halfWord ∧ 14000 < halfWord ∧ (∃ text, asWords 14000 = .ok text) ∧
      4000 ≠ 14000 ∧ asWords 4000 ≠ asWords 14000 := by
  have hleft : 4000 < halfWord := by decide
  have hright : 14000 < halfWord := by decide
  have hother : 4000 ≠ 14000 := by decide
  exact ⟨hleft, hright, words_determine_number.1 14000 hright, hother,
    words_determine_number.2 4000 hleft 14000 hright hother⟩

end NumberPuzzles.NumberWords
