import Mathlib.Algebra.Group.Nat.Defs
import Mathlib.Data.List.Dedup
import Resolution.Interner

/-!
# Names stand for texts

A text goes into the shard that its first bytes choose, and its name is its place there.  Shards
only grow at the end, their lists and maps stay inverse to each other, and they hold only texts that
belong there (`Kept`), so a name leads back to its text at every later time and two texts never
share a name.  As long as no shard outgrows its positions, shard and position can be read off the
packed word.
-/

namespace Resolution

/-! ## Packed words -/

namespace Name

variable {name other : Name}

/-- Both parts fit their bits. -/
def Fits (name : Name) : Prop := name.shard < shardCount ∧ name.position ≤ maxPosition

theorem Fits.raw_lt (fits : name.Fits) : name.raw < 2 ^ 32 := by
  obtain ⟨shard, position⟩ := fits
  simp only [shardCount, maxPosition, raw] at *
  omega

/-- The shard stands in the upper four bits. -/
theorem Fits.shard_eq (fits : name.Fits) : name.raw >>> 28 = name.shard := by
  obtain ⟨_, position⟩ := fits
  simp only [maxPosition, raw, Nat.shiftRight_eq_div_pow] at *
  omega

/-- The position stands in the lower bits. -/
theorem Fits.position_eq (fits : name.Fits) : name.raw &&& maxPosition = name.position := by
  obtain ⟨_, position⟩ := fits
  have mask : maxPosition = 2 ^ 28 - 1 := rfl
  rw [mask, Nat.and_two_pow_sub_one_eq_mod]
  simp only [maxPosition, raw] at *
  omega

/-- Names of different shards or positions have different words. -/
theorem Fits.raw_inj (fits : name.Fits) (alsoFits : other.Fits) :
    name.raw = other.raw ↔ name = other := by
  refine ⟨fun same => ?_, fun same => by rw [same]⟩
  have shards : name.shard = other.shard := by rw [← fits.shard_eq, ← alsoFits.shard_eq, same]
  have positions : name.position =
    other.position := by rw [← fits.position_eq, ← alsoFits.position_eq, same]
  cases name
  cases other
  exact congr (congrArg Name.mk shards) positions

end Name

/-! ## Containers of a shard -/

namespace Shard

variable {shard : Shard} {text : String}

/-- The map and the list are inverse to each other. -/
def Inverse (shard : Shard) : Prop :=
  ∀ text position, shard.places.lookup text = some position ↔ shard.texts[position]? = some text

theorem inverse_empty : Inverse {} := by
  intro text position
  simp

theorem Inverse.lookup_eq_none (inverse : shard.Inverse) :
    shard.places.lookup text = none ↔ text ∉ shard.texts := by
  rw [List.mem_iff_getElem?, not_exists, Option.eq_none_iff_forall_ne_some]
  exact forall_congr' fun position => not_congr (inverse text position)

/-- A list that has an inverse holds no text twice. -/
theorem Inverse.nodup (inverse : shard.Inverse) : shard.texts.Nodup := by
  refine List.nodup_iff_getElem?_ne_getElem?.mpr fun first second before inside same => ?_
  have here : shard.texts[first]? = some shard.texts[first] :=
    List.getElem?_eq_getElem (Nat.lt_trans before inside)
  have one := (inverse _ _).mpr here
  have two := (inverse _ _).mpr (same ▸ here)
  exact Nat.ne_of_lt before (Option.some.inj (one.symm.trans two))

/-- A new text joins both containers. -/
theorem Inverse.push (inverse : shard.Inverse) (isNew : text ∉ shard.texts) :
    (shard.push text).Inverse := by
  intro other position
  change List.lookup other ((text, shard.texts.length) :: shard.places) = some position ↔
    (shard.texts ++ [text])[position]? = some other
  rw [List.getElem?_append]
  by_cases same : other = text
  · subst same
    have absent : ¬shard.texts[position]? = some other := fun here =>
      isNew (List.mem_of_getElem? here)
    simp only [List.lookup_cons, beq_self_eq_true, Option.some.injEq]
    split
    · rename_i inside
      exact ⟨fun last => absurd inside (by omega), fun here => absurd here absent⟩
    · rename_i outside
      rw [List.getElem?_singleton]
      constructor
      · rintro rfl
        simp
      · intro found
        split at found
        · omega
        · cases found
  · have differs : (other == text) = false := beq_eq_false_iff_ne.mpr same
    simp only [List.lookup_cons, differs]
    rw [inverse]
    split
    · exact Iff.rfl
    · rename_i outside
      rw [List.getElem?_eq_none (Nat.le_of_not_lt outside), List.getElem?_singleton]
      constructor
      · rintro ⟨⟩
      · intro found
        split at found
        · exact absurd (Option.some.inj found).symm same
        · cases found

end Shard

namespace Interner

variable {other : Name}

/-- The interner after several texts were seen. -/
def noteAll (interner : Interner) (texts : List String) : Interner := texts.foldl note interner

/-- Names of texts that are interned one after the other. -/
def names (interner : Interner) : List String → List Name
  | [] => []
  | text :: rest => (interner.intern text).1 :: (interner.note text).names rest

/-! ## Shards -/

/-- The containers of every shard are inverse and hold only texts that belong there; the empty text
comes first of all. -/
structure Kept (interner : Interner) : Prop where
  count : interner.shards.length = Name.shardCount
  homed : ∀ number, ∀ text ∈ interner.shard number, shardOf text = number
  inverse : ∀ number, (interner.shardAt number).Inverse
  blank : (interner.shard 0)[0]? = some ""

theorem shardAt_new (number : Nat) :
    number = 0 ∧ new.shardAt number = Shard.push {} "" ∨ new.shardAt number = {} := by
  match number with
  | 0 => exact .inl ⟨rfl, rfl⟩
  | number + 1 =>
    refine .inr ?_
    simp only [shardAt, new, List.getD_eq_getElem?_getD, List.getElem?_cons_succ,
      List.getElem?_replicate]
    split <;> rfl

theorem kept_new : new.Kept := by
  refine ⟨rfl, fun number text listed => ?_, fun number => ?_, rfl⟩
  · unfold shard at listed
    rcases shardAt_new number with ⟨rfl, same⟩ | same
    · rw [same] at listed
      obtain rfl := List.mem_singleton.mp listed
      rfl
    · rw [same] at listed
      cases listed
  · rcases shardAt_new number with ⟨_, same⟩ | same
    · rw [same]
      exact Shard.inverse_empty.push List.not_mem_nil
    · rw [same]
      exact Shard.inverse_empty

variable {interner : Interner} {name : Name} {text : String}

section

variable (kept : interner.Kept)

include kept

theorem Kept.distinct (number : Nat) : (interner.shard number).Nodup := (kept.inverse number).nodup

/-- The map leads to the place of a text. -/
theorem Kept.placeOf?_eq_some {position : Nat} : interner.placeOf? text = some position ↔
    (interner.shard (shardOf text))[position]? = some text :=
  kept.inverse (shardOf text) text position

theorem Kept.placeOf?_eq_none :
    interner.placeOf? text = none ↔ text ∉ interner.shard (shardOf text) :=
  (kept.inverse (shardOf text)).lookup_eq_none

/-- Seeing a text adds it to the end of its shard, unless it is there. -/
theorem shardAt_note (text : String) (number : Nat) : (interner.note text).shardAt number =
      if number = shardOf text ∧ text ∉ interner.shard number then
        (interner.shardAt number).push text
      else interner.shardAt number := by
  unfold note intern
  dsimp only
  cases found : interner.placeOf? text with
  | some position =>
    have known := List.mem_of_getElem? (kept.placeOf?_eq_some.mp found)
    refine (if_neg ?_).symm
    rintro ⟨rfl, missing⟩
    exact missing known
  | none =>
    have missing := kept.placeOf?_eq_none.mp found
    have inside : shardOf text < interner.shards.length := by
      rw [kept.count]
      exact shardOf_lt text
    by_cases same : number = shardOf text
    · subst same
      rw [if_pos ⟨rfl, missing⟩]
      simp [shardAt, inside]
    · rw [if_neg fun both => same both.1]
      simp [shardAt, Ne.symm same]

theorem shard_note (text : String) (number : Nat) : (interner.note text).shard number =
      if number = shardOf text ∧ text ∉ interner.shard number then interner.shard number ++ [text]
      else interner.shard number := by
  rw [shard, shardAt_note kept]
  split <;> rfl

theorem mem_shard_note (text other : String) (number : Nat) :
    other ∈ (interner.note text).shard number ↔
      other ∈ interner.shard number ∨ other = text ∧ number = shardOf text := by
  rw [shard_note kept]
  split
  · rename_i isNew
    simp [isNew.1]
  · rename_i old
    refine ⟨.inl, ?_⟩
    rintro (listed | ⟨rfl, home⟩)
    · exact listed
    · by_contra missing
      exact old ⟨home, missing⟩

theorem shard_prefix_note (text : String) (number : Nat) :
    interner.shard number <+: (interner.note text).shard number := by
  rw [shard_note kept]
  split
  · exact List.prefix_append ..
  · exact List.prefix_rfl

theorem Kept.note (text : String) : (interner.note text).Kept where
  count := by
    unfold Interner.note intern
    dsimp only
    split
    · exact kept.count
    · simpa using kept.count
  homed number other listed := by
    rcases (mem_shard_note kept text other number).mp listed with old | ⟨rfl, home⟩
    · exact kept.homed number other old
    · exact home.symm
  inverse number := by
    rw [shardAt_note kept]
    split
    · rename_i isNew
      exact (kept.inverse number).push isNew.2
    · exact kept.inverse number
  blank := by
    obtain ⟨added, grown⟩ := shard_prefix_note kept text 0
    obtain ⟨inside, _⟩ := List.getElem?_eq_some_iff.mp kept.blank
    rw [← grown, List.getElem?_append_left inside, kept.blank]

theorem Kept.noteAll (texts : List String) : (interner.noteAll texts).Kept := by
  induction texts generalizing interner with
  | nil => exact kept
  | cons text rest ih => exact ih (kept.note text)

theorem shard_prefix_noteAll (texts : List String) (number : Nat) :
    interner.shard number <+: (interner.noteAll texts).shard number := by
  induction texts generalizing interner with
  | nil => exact List.prefix_rfl
  | cons text rest ih => exact (shard_prefix_note kept text number).trans (ih (kept.note text))

end

/-! ## Names and their texts -/

/-- A name leads to a text, in the shard that the text belongs to. -/
def Denotes (interner : Interner) (name : Name) (text : String) : Prop :=
  name.shard = shardOf text ∧ interner.lookup? name = some text

section

variable (kept : interner.Kept)

include kept

theorem denotes_intern (text : String) :
    (interner.note text).Denotes (interner.intern text).1 text := by
  have grown := shard_note kept text (shardOf text)
  cases found : interner.placeOf? text with
  | some position =>
    have here := kept.placeOf?_eq_some.mp found
    rw [if_neg fun both => both.2 (List.mem_of_getElem? here)] at grown
    have name : (interner.intern text).1 = ⟨shardOf text, position⟩ := by simp [intern, found]
    refine ⟨by rw [name], ?_⟩
    rw [name, lookup?, grown]
    exact here
  | none =>
    rw [if_pos ⟨rfl, kept.placeOf?_eq_none.mp found⟩] at grown
    have name : (interner.intern text).1 = ⟨shardOf text, (interner.shard (shardOf text)).length⟩ :=
      by
      simp [intern, found, shard]
    refine ⟨by rw [name], ?_⟩
    rw [name, lookup?, grown]
    simp

/-- A text is refused where no place is left for it. -/
theorem Kept.tryIntern_eq_ok
    (room : ((interner.note text).shard (shardOf text)).length ≤ Name.maxPosition + 1) :
    interner.tryIntern text = .ok (interner.intern text) := by
  refine if_neg fun ⟨isNew, full⟩ => ?_
  have missing := kept.placeOf?_eq_none.mp (Option.isNone_iff_eq_none.mp isNew)
  rw [shard_note kept, if_pos ⟨rfl, missing⟩, List.length_append, List.length_singleton] at room
  omega

omit kept in
theorem Denotes.noteAll (denotes : interner.Denotes name text) (kept : interner.Kept)
    (texts : List String) : (interner.noteAll texts).Denotes name text := by
  refine ⟨denotes.1, ?_⟩
  obtain ⟨added, grown⟩ := shard_prefix_noteAll kept texts name.shard
  obtain ⟨inside, _⟩ := List.getElem?_eq_some_iff.mp denotes.2
  rw [lookup?, ← grown, List.getElem?_append_left inside]
  exact denotes.2

theorem Denotes.unique (denotes : interner.Denotes name text)
    (also : interner.Denotes other text) : name = other := by
  obtain ⟨shard, position⟩ := name
  obtain ⟨otherShard, otherPosition⟩ := other
  obtain ⟨rfl, here⟩ := denotes
  obtain ⟨rfl, there⟩ := also
  obtain ⟨inside, _⟩ := List.getElem?_eq_some_iff.mp here
  have same : position = otherPosition :=
    (List.getElem?_inj inside (kept.distinct (shardOf text))).mp (here.trans there.symm)
  rw [same]

theorem Denotes.eq_iff {otherText : String}
    (denotes : interner.Denotes name text) (also : interner.Denotes other otherText) :
    name = other ↔ text = otherText := by
  constructor
  · rintro rfl
    exact Option.some.inj (denotes.2.symm.trans also.2)
  · rintro rfl
    exact denotes.unique kept also

omit kept in
theorem Denotes.fits (denotes : interner.Denotes name text)
    (room : ∀ number, (interner.shard number).length ≤ Name.maxPosition + 1) : name.Fits := by
  obtain ⟨inside, _⟩ := List.getElem?_eq_some_iff.mp denotes.2
  refine ⟨denotes.1 ▸ shardOf_lt text, ?_⟩
  have := room name.shard
  omega

omit kept in
theorem length_names (interner : Interner) (texts : List String) :
    (interner.names texts).length = texts.length := by
  induction texts generalizing interner with
  | nil => rfl
  | cons text rest ih => exact congrArg (· + 1) (ih (interner.note text))

/-- After a sequence of calls, the answer of each call leads to the text of that call. -/
theorem denotes_of_mem_zip_names {texts : List String}
    (call : (text, name) ∈ texts.zip (interner.names texts)) :
    (interner.noteAll texts).Denotes name text := by
  induction texts generalizing interner with
  | nil => cases call
  | cons first rest ih =>
    rcases List.mem_cons.mp call with same | later
    · cases same
      exact (denotes_intern kept text).noteAll (kept.note text) rest
    · exact ih (kept.note first) later

theorem Kept.intern_blank : (interner.intern "").1 = .empty := by
  refine (denotes_intern kept "").unique (kept.note "") ⟨rfl, ?_⟩
  exact (kept.note "").blank

/-! ## Number of texts -/

omit kept in
theorem shard_eq_getElem {number : Nat} (inside : number < interner.shards.length) :
    interner.shard number = interner.shards[number].texts := by
  simp [shard, shardAt, inside]

theorem Kept.mem_texts (text : String) :
    text ∈ interner.texts ↔ text ∈ interner.shard (shardOf text) := by
  rw [texts, List.mem_flatMap]
  constructor
  · rintro ⟨shard, listed, member⟩
    obtain ⟨number, inside, rfl⟩ := List.mem_iff_getElem.mp listed
    rw [← shard_eq_getElem inside] at member
    rwa [kept.homed number text member]
  · intro member
    have inside : shardOf text < interner.shards.length := by
      rw [kept.count]
      exact shardOf_lt text
    exact ⟨_, List.getElem_mem inside, shard_eq_getElem inside ▸ member⟩

/-- Different shards share no text. -/
theorem Kept.nodup_texts : interner.texts.Nodup := by
  refine List.nodup_flatMap.mpr ⟨fun shard listed => ?_, List.pairwise_iff_getElem.mpr ?_⟩
  · obtain ⟨number, inside, rfl⟩ := List.mem_iff_getElem.mp listed
    rw [← shard_eq_getElem inside]
    exact kept.distinct number
  · intro first second firstInside secondInside before text inFirst inSecond
    rw [← shard_eq_getElem] at inFirst inSecond
    have home := kept.homed first text inFirst
    rw [kept.homed second text inSecond] at home
    omega

theorem mem_texts_noteAll (texts : List String) (text : String) :
    text ∈ (interner.noteAll texts).texts ↔ text ∈ interner.texts ∨ text ∈ texts := by
  induction texts generalizing interner with
  | nil => simp [noteAll]
  | cons first rest ih =>
    rw [show interner.noteAll (first :: rest) = (interner.note first).noteAll rest from
      rfl, ih (kept.note first),
      (kept.note first).mem_texts, kept.mem_texts, mem_shard_note kept, List.mem_cons, or_assoc]
    constructor
    · rintro (old | ⟨rfl, _⟩ | later)
      · exact .inl old
      · exact .inr (.inl rfl)
      · exact .inr (.inr later)
    · rintro (old | rfl | later)
      · exact .inl old
      · exact .inr (.inl ⟨rfl, rfl⟩)
      · exact .inr (.inr later)

end

theorem size_noteAll_new (texts : List String) :
    (new.noteAll texts).size = ("" :: texts).dedup.length := by
  have kept := kept_new.noteAll texts
  refine List.Perm.length_eq ((List.perm_ext_iff_of_nodup kept.nodup_texts (List.nodup_dedup _)).mpr
    fun text => ?_)
  have fresh : text ∈ new.texts ↔ text = "" := by
    simp [new, Interner.texts, Shard.push]
  rw [mem_texts_noteAll kept_new, fresh, List.mem_dedup, List.mem_cons]

theorem length_shard_le_size (interner : Interner) (number : Nat) :
    (interner.shard number).length ≤ interner.size := by
  by_cases inside : number < interner.shards.length
  · rw [shard_eq_getElem inside]
    refine (List.sublist_flatten_of_mem (List.mem_map.mpr ?_)).length_le
    exact ⟨_, List.getElem_mem inside, rfl⟩
  · have missing : interner.shard number = [] := by
      simp [shard, shardAt, Nat.le_of_not_lt inside]
    simp [missing]

/-- Interning texts from the start names them one to one, for good.  Two calls answer one word
exactly when their texts have the same bytes, a name leads to its text whatever is interned later,
the parts of a name can be read off its word, the empty text has the empty name, the interner has
counted each text once, and no call was refused.  No shard may have outgrown its positions. -/
theorem names_stand_for_texts (texts : List String)
    (room : ∀ number, ((new.noteAll texts).shard number).length ≤ Name.maxPosition + 1) :
    (new.names texts).length = texts.length ∧
    (∀ first ∈ texts.zip (new.names texts), ∀ second ∈ texts.zip (new.names texts),
      (first.2.raw = second.2.raw ↔ first.1.toByteArray = second.1.toByteArray) ∧
      (first.2 = second.2 ↔ first.1.toByteArray = second.1.toByteArray)) ∧
    (∀ call ∈ texts.zip (new.names texts), ∀ further,
      ((new.noteAll texts).noteAll further).lookup? call.2 = some call.1) ∧
    (∀ name ∈ new.names texts, name.shard < 16 ∧ name.position ≤ 0x0FFFFFFF ∧ name.raw < 2 ^ 32 ∧
      name.raw >>> 28 = name.shard ∧ name.raw &&& 0x0FFFFFFF = name.position) ∧
    ((new.noteAll texts).intern "").1 = .empty ∧ Name.empty.raw = 0 ∧
    (new.noteAll texts).size = ("" :: texts).dedup.length ∧
    ∀ earlier text later, texts = earlier ++ text :: later →
      (new.noteAll earlier).tryIntern text = .ok ((new.noteAll earlier).intern text) := by
  have kept := kept_new.noteAll texts
  have denotes {call : String × Name} (made : call ∈ texts.zip (new.names texts)) :
      (new.noteAll texts).Denotes call.2 call.1 := denotes_of_mem_zip_names kept_new made
  refine ⟨length_names new texts, fun first made second madeAlso => ?_, fun call made further => ?_,
    fun name answered => ?_, kept.intern_blank, rfl, size_noteAll_new texts, ?_⟩
  · have same := (denotes made).eq_iff kept (denotes madeAlso)
    rw [((denotes made).fits room).raw_inj ((denotes madeAlso).fits room), same,
      String.toByteArray_inj]
    exact ⟨Iff.rfl, Iff.rfl⟩
  · exact ((denotes made).noteAll kept further).2
  · obtain ⟨position, inside, rfl⟩ := List.mem_iff_getElem.mp answered
    have also : position < texts.length := length_names new texts ▸ inside
    have made : (texts[position], (new.names texts)[position]) ∈ texts.zip (new.names texts) :=
      List.mem_iff_getElem.mpr ⟨position, by rw [List.length_zip]; omega, List.getElem_zip⟩
    have fits := (denotes made).fits room
    exact ⟨fits.1, fits.2, fits.raw_lt, fits.shard_eq, fits.position_eq⟩
  · rintro earlier text later rfl
    have known := kept_new.noteAll earlier
    refine known.tryIntern_eq_ok ?_
    have grown := shard_prefix_noteAll (known.note text) later (shardOf text)
    calc
      _ ≤ ((((new.noteAll earlier).note text).noteAll later).shard (shardOf text)).length :=
        grown.length_le
      _ = ((new.noteAll (earlier ++ text :: later)).shard (shardOf text)).length := by
        rw [noteAll, noteAll, noteAll, List.foldl_append]
        rfl
      _ ≤ _ := room (shardOf text)

/-- Two texts with the same first eight bytes share a shard and have names of their own. -/
theorem names_of_texts_alike :
    (∀ number, ((new.noteAll ["resolver1", "resolver2"]).shard number).length ≤ Name.maxPosition +
      1) ∧
    ∃ first second, new.names ["resolver1", "resolver2"] = [first, second] ∧
    first.shard = second.shard ∧
      first.raw ≠ second.raw ∧ ((new.noteAll ["resolver1", "resolver2"]).noteAll
        ["", "other"]).lookup? first =
        some "resolver1" := by
  have room (number : Nat) :
      ((new.noteAll ["resolver1", "resolver2"]).shard number).length ≤ Name.maxPosition + 1 := by
    calc
      _ ≤ (new.noteAll ["resolver1", "resolver2"]).size := length_shard_le_size _ number
      _ = ["", "resolver1", "resolver2"].dedup.length := size_noteAll_new _
      _ ≤ 3 := (List.dedup_sublist _).length_le
      _ ≤ Name.maxPosition + 1 := by decide
  obtain ⟨_, same, stable, _⟩ := names_stand_for_texts ["resolver1", "resolver2"] room
  refine ⟨room, _, _, rfl, by decide, fun alike => ?_, stable _ List.mem_cons_self ["", "other"]⟩
  have bytes := ((same _ List.mem_cons_self _ (List.mem_cons_of_mem _ List.mem_cons_self)).1).mp
    alike
  exact absurd (String.toByteArray_inj.mp bytes) (by decide)

end Interner
end Resolution
