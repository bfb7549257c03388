/-
# `Camera.Format` — a reply as decimal text

`format_recieved_data` of `camera_communication.c` writes the value of every byte of a reply,
each followed by a space.  The text is put together in a buffer of three times as many bytes
as the reply has.
-/
import TX2SecureUart.Lib.CString
import TX2SecureUart.Lib.DecimalText

namespace TX2SecureUart.Camera.Format

open CString DecimalText

/-! ## The program

`none` is an access outside a buffer, or a signed overflow. -/

/-- The allocated buffers, and `global_size`. -/
structure Scratch where
  toPrint : List UInt8
  valueInCharReverse : List UInt8
  valueInChar : List UInt8
  globalSize : Nat

/-- What a string function reads of a buffer; it does not stop before the first zero. -/
def stringIn (buffer : List UInt8) : Option (Nat → UInt8) :=
  if 0 ∈ buffer then some (buffer.getD · 0) else none

/-- `malloc` of fresh memory -/
def malloc (size : Nat) : List UInt8 := List.replicate size 0

/-- `while (value != 0)`; a pass lowers the value. -/
def digitLoop : Nat → UInt8 → List UInt8 → Nat → Option (List UInt8 × Nat)
  | 0, _, reverse, size => some (reverse, size)
  | passes + 1, value, reverse, size =>
      if value = 0 then some (reverse, size)
      else
        match strncat reverse (fun _ => value % 10 + 48) 1 with
        | none => none
        | some reverse => digitLoop passes (value / 10) reverse (size + 1)

/-- The characters of `value`, the last one first, and how many. -/
def reverseChars (value : UInt8) (reverse : List UInt8) : Option (List UInt8 × Nat) :=
  if value = 0 then do
    let reverse ← strncat reverse (fun _ => 48) 1
    let reverse ← strncat reverse (fun _ => 48) 1
    some (reverse, 2)
  else digitLoop value.toNat value reverse 0

/-- `for (int i = size - 1; i >= 0; i--)` -/
def turnLoop (reverse : List UInt8) : Nat → List UInt8 → Option (List UInt8)
  | 0, valueInChar => some valueInChar
  | i + 1, valueInChar => do
      let c ← reverse[i]?
      let valueInChar ← strncat valueInChar (fun _ => c) 1
      turnLoop reverse i valueInChar

/-- One pass of the loop over the message. -/
def formatByte (st : Scratch) (value : UInt8) : Option Scratch := do
  let (reverse, size) ← reverseChars value st.valueInCharReverse
  let valueInChar ← turnLoop reverse size st.valueInChar
  let valueInChar ← strcat valueInChar (fun i => if i = 0 then space else 0)
  let word ← stringIn valueInChar
  let toPrint ← strcat st.toPrint word
  some { toPrint, valueInCharReverse := malloc 100, valueInChar := malloc 100,
         globalSize := st.globalSize + size + 1 }

/-- `strcpy` -/
def strcpy (dest : Nat → UInt8) (src : Nat → UInt8) (n : Nat) : Nat → UInt8 :=
  fun i => (cstringAt src n ++ [0]).getD i (dest i)

/-- `format_recieved_data`: the result, and what `formatted_message` points to. -/
def formatRecievedData (receivedMsgFromCam : List UInt8) (formattedMessage : Nat → UInt8) :
    Option (Nat × (Nat → UInt8)) :=
  if receivedMsgFromCam.length * 3 < 2 ^ 31 then do
    let st ← receivedMsgFromCam.foldlM formatByte
      ⟨malloc (receivedMsgFromCam.length * 3), malloc 100, malloc 100, 0⟩
    let toPrint ← stringIn st.toPrint
    some (st.globalSize, strcpy formattedMessage toPrint st.toPrint.length)
  else none

/-! ## One byte -/

/-- How a byte is written. -/
def wordOf (value : UInt8) : List UInt8 := if value = 0 then [48, 48] else numeral value.toNat

theorem numeral_wordOf (value : UInt8) : Numeral (wordOf value) value.toNat := by
  by_cases h0 : value = 0
  · subst h0
    refine ⟨by decide, ?_, rfl⟩
    intro c hc
    obtain rfl : c = 48 := by simpa [wordOf] using hc
    exact ⟨by decide, by decide⟩
  · rw [wordOf, if_neg h0]
    refine numeral_numeral ?_
    intro h
    exact h0 (UInt8.toNat_inj.mp h)

theorem length_wordOf_le (value : UInt8) : (wordOf value).length ≤ 3 := by
  by_cases h0 : value = 0
  · subst h0
    decide
  · rw [wordOf, if_neg h0]
    exact length_numeral_le_iff.mpr (Nat.lt_of_lt_of_le (UInt8.toNat_lt value) (by decide))

theorem replicate_room {k j : Nat} (h : j < k) :
    (List.replicate k (0 : UInt8)) = 0 :: List.replicate (k - 1) 0 := by
  rw [← List.replicate_succ, Nat.sub_add_cancel (by omega)]

/-- The digits of the value are appended, the last one first. -/
theorem digitLoop_eq {passes : Nat} {value : UInt8} (hpasses : value.toNat ≤ passes) {s : List UInt8}
    (hs : ∀ c ∈ s, c ≠ 0) {room : Nat} (hroom : (Nat.digits 10 value.toNat).length ≤ room)
    (size : Nat) :
    digitLoop passes value (s ++ 0 :: List.replicate room 0) size =
      some (s ++ (Nat.digits 10 value.toNat).map digitChar ++
          0 :: List.replicate (room - (Nat.digits 10 value.toNat).length) 0,
        size + (Nat.digits 10 value.toNat).length) := by
  induction passes generalizing value s room size with
  | zero =>
    have h0 : value.toNat = 0 := Nat.le_zero.mp hpasses
    rw [h0]
    simp [digitLoop]
  | succ passes ih =>
    by_cases h0 : value = 0
    · subst h0
      simp [digitLoop]
    · have hpos : 0 < value.toNat := Nat.pos_of_ne_zero (fun h => h0 (UInt8.toNat_inj.mp h))
      have hdigits := Nat.digits_def' (show 1 < 10 by decide) hpos
      have hquot : (value / 10).toNat = value.toNat / 10 := UInt8.toNat_div value 10
      have hrem : value % 10 + 48 = digitChar (value.toNat % 10) := by
        apply UInt8.toNat_inj.mp
        rw [digitChar_toNat (Nat.mod_lt _ (by decide)), UInt8.toNat_add, UInt8.toNat_mod]
        exact Nat.mod_eq_of_lt (by
          have := Nat.mod_lt value.toNat (show 0 < 10 by decide)
          show value.toNat % 10 + 48 < 256
          omega)
      have hchar := (isDigit_digitChar (Nat.mod_lt value.toNat (show 0 < 10 by decide))).ne_zero
      rw [hdigits, List.length_cons] at hroom
      rw [digitLoop, if_neg h0, hrem, replicate_room (j := 0) (by omega), strncat_one hchar hs]
      have hs' : ∀ c ∈ s ++ [digitChar (value.toNat % 10)], c ≠ 0 := by
        intro c hc
        rcases List.mem_append.mp hc with h | h
        · exact hs c h
        · rw [List.mem_singleton.mp h]
          exact hchar
      have hnext := @ih (value / 10) (by rw [hquot]; omega) _ hs' (room - 1) (by rw [hquot]; omega)
        (size + 1)
      rw [hquot] at hnext
      show digitLoop passes (value / 10) _ (size + 1) = _
      rw [hnext, hdigits, List.map_cons, List.length_cons, List.append_cons s _ (List.map _ _), Nat.sub_sub,
        Nat.add_comm 1 (List.length _), Nat.add_assoc, Nat.add_comm 1 (List.length _)]

/-- The characters of the word, the last one first. -/
theorem reverseChars_eq (value : UInt8) :
    reverseChars value (malloc 100) =
      some ((wordOf value).reverse ++ 0 :: List.replicate (99 - (wordOf value).length) 0,
        (wordOf value).length) := by
  by_cases h0 : value = 0
  · subst h0
    decide
  · have hlen : (Nat.digits 10 value.toNat).length ≤ 99 := by
      have := length_wordOf_le value
      rw [wordOf, if_neg h0, length_numeral] at this
      omega
    have := digitLoop_eq (Nat.le_refl value.toNat) (s := []) (by simp) hlen 0
    rw [reverseChars, if_neg h0, wordOf, if_neg h0, length_numeral, numeral, List.reverse_reverse]
    rw [List.nil_append, List.nil_append, Nat.zero_add] at this
    exact this

/-- The word is turned round. -/
theorem turnLoop_eq {ds : List UInt8} (hds : ∀ c ∈ ds, c ≠ 0) (tail : List UInt8) {i : Nat}
    (hi : i ≤ ds.length) {s : List UInt8} (hs : ∀ c ∈ s, c ≠ 0) {room : Nat} (hroom : i ≤ room) :
    turnLoop (ds ++ tail) i (s ++ 0 :: List.replicate room 0) =
      some (s ++ (ds.take i).reverse ++ 0 :: List.replicate (room - i) 0) := by
  induction i generalizing s room with
  | zero => simp [turnLoop]
  | succ i ih =>
    have hget : (ds ++ tail)[i]? = some ds[i] := by
      rw [List.getElem?_append_left hi, List.getElem?_eq_getElem hi]
    have hc : ds[i] ≠ 0 := hds _ (List.getElem_mem hi)
    have hs' : ∀ c ∈ s ++ [ds[i]], c ≠ 0 := by
      intro c hmem
      rcases List.mem_append.mp hmem with h | h
      · exact hs c h
      · rw [List.mem_singleton.mp h]
        exact hc
    have hnext := ih (Nat.le_of_succ_le hi) hs' (show i ≤ room - 1 by omega)
    rw [turnLoop, hget, replicate_room (j := 0) (by omega)]
    show (strncat _ (fun _ => ds[i]) 1).bind _ = _
    rw [strncat_one hc hs]
    show turnLoop (ds ++ tail) i _ = _
    rw [hnext, List.take_succ_eq_append_getElem hi, List.reverse_append, Nat.sub_sub, Nat.add_comm 1]
    simp

/-! ## The message -/

/-- The buffers between two passes: `s` is printed, and `room` more characters fit. -/
def between (s : List UInt8) (room globalSize : Nat) : Scratch :=
  ⟨s ++ 0 :: List.replicate room 0, malloc 100, malloc 100, globalSize⟩

theorem stringIn_eq {s rest : List UInt8} :
    stringIn (s ++ 0 :: rest) = some ((s ++ 0 :: rest).getD · 0) :=
  if_pos (List.mem_append_right s List.mem_cons_self)

/-- The word with its space, as it stands in `value_in_char`. -/
theorem spaced_eq (value : UInt8) :
    strcat (wordOf value ++ 0 :: List.replicate (99 - (wordOf value).length) 0)
        (fun i => if i = 0 then space else 0) =
      some (wordOf value ++ [space] ++ 0 :: List.replicate (98 - (wordOf value).length) 0) := by
  have hne := fun c hc => ((numeral_wordOf value).digits c hc).ne_zero
  have hlen := length_wordOf_le value
  have hspace : (fun i => if i = 0 then space else 0) = (fun i : Nat => if i < 1 then space else 0) := by
    simp only [Nat.lt_one_iff]
  rw [replicate_room (j := 0) (show 0 < 99 - (wordOf value).length by omega), hspace,
    show 99 - (wordOf value).length - 1 = 98 - (wordOf value).length by omega]
  exact strncat_one (c := space) (by decide) hne 0 _

/-- A byte is printed when its word and the space fit. -/
theorem formatByte_eq (value : UInt8) {s : List UInt8} (hs : ∀ c ∈ s, c ≠ 0) (room globalSize : Nat) :
    formatByte (between s room globalSize) value =
      if (wordOf value).length + 1 ≤ room then
        some (between (s ++ (wordOf value ++ [space])) (room - ((wordOf value).length + 1))
          (globalSize + (wordOf value).length + 1))
      else none := by
  have hne : ∀ c ∈ wordOf value, c ≠ 0 := fun c hc => ((numeral_wordOf value).digits c hc).ne_zero
  have hlen := length_wordOf_le value
  have hturn := @turnLoop_eq (wordOf value).reverse (fun c hc => hne c (List.mem_reverse.mp hc))
    (0 :: List.replicate (99 - (wordOf value).length) 0) (wordOf value).length
    (by rw [List.length_reverse]) [] (by simp) 99 (by omega)
  rw [List.take_of_length_le (by rw [List.length_reverse]), List.reverse_reverse, List.nil_append,
    List.nil_append] at hturn
  have hword : ∀ c ∈ wordOf value ++ [space], c ≠ 0 := by
    intro c hc
    rcases List.mem_append.mp hc with h | h
    · exact hne c h
    · rw [List.mem_singleton.mp h]
      decide
  have hone : (wordOf value ++ [space]).length = (wordOf value).length + 1 := List.length_append
  have hrun : formatByte (between s room globalSize) value =
      (strcat (s ++ 0 :: List.replicate room 0)
        ((wordOf value ++ [space] ++ 0 :: List.replicate (98 - (wordOf value).length) 0).getD · 0)).map
        fun toPrint => ⟨toPrint, malloc 100, malloc 100, globalSize + (wordOf value).length + 1⟩ := by
    unfold formatByte between
    rw [reverseChars_eq]
    show (turnLoop _ _ (malloc 100)).bind _ = _
    rw [show malloc 100 = 0 :: List.replicate 99 0 from rfl, hturn]
    show (strcat _ _).bind _ = _
    rw [spaced_eq]
    show (stringIn _).bind _ = _
    rw [stringIn_eq]
    show (strcat _ _).bind _ = _
    rw [Option.map_eq_bind]
    rfl
  rw [hrun, strcat_buffer hs hword, hone, List.length_replicate, List.drop_replicate]
  split
  · rfl
  · rfl

/-- How a message is written. -/
def textFor (msg : List UInt8) : List UInt8 := textOf (msg.map wordOf)

theorem numerals_words (msg : List UInt8) :
    List.Forall₂ Numeral (msg.map wordOf) (msg.map UInt8.toNat) := by
  induction msg with
  | nil => exact .nil
  | cons value msg ih => exact .cons (numeral_wordOf value) ih

theorem ne_zero_of_mem_textFor {msg : List UInt8} : ∀ c ∈ textFor msg, c ≠ 0 :=
  ne_zero_of_mem_textOf (numerals_words msg)

theorem textFor_cons (value : UInt8) (msg : List UInt8) :
    textFor (value :: msg) = wordOf value ++ [space] ++ textFor msg := rfl

theorem length_textFor_cons (value : UInt8) (msg : List UInt8) :
    (textFor (value :: msg)).length = (wordOf value).length + 1 + (textFor msg).length := by
  rw [textFor_cons, List.length_append, List.length_append]
  rfl

/-- The loop runs to its end when the whole text fits. -/
theorem formatLoop_eq (msg : List UInt8) {s : List UInt8} (hs : ∀ c ∈ s, c ≠ 0)
    (room globalSize : Nat) :
    msg.foldlM formatByte (between s room globalSize) =
      if (textFor msg).length ≤ room then
        some (between (s ++ textFor msg) (room - (textFor msg).length)
          (globalSize + (textFor msg).length))
      else none := by
  induction msg generalizing s room globalSize with
  | nil =>
    rw [show textFor [] = [] from rfl, List.length_nil, if_pos (Nat.zero_le room), List.append_nil]
    rfl
  | cons value msg ih =>
    have hlen := length_textFor_cons value msg
    rw [List.foldlM_cons, formatByte_eq value hs]
    by_cases hfits : (wordOf value).length + 1 ≤ room
    · have hs' : ∀ c ∈ s ++ (wordOf value ++ [space]), c ≠ 0 := by
        intro c hc
        rcases List.mem_append.mp hc with h | h
        · exact hs c h
        · have hone : c ∈ textFor [value] := List.mem_append_left [] h
          exact ne_zero_of_mem_textFor c hone
      rw [if_pos hfits]
      show msg.foldlM formatByte _ = _
      rw [ih hs']
      by_cases hall : (textFor (value :: msg)).length ≤ room
      · rw [if_pos (by omega), if_pos hall, hlen, textFor_cons, List.append_assoc s, Nat.sub_sub]
        rw [Nat.add_assoc globalSize, Nat.add_assoc globalSize]
      · rw [if_neg (by omega), if_neg hall]
    · rw [if_neg hfits, if_neg (by omega)]
      rfl

/-- The string is copied with its terminator. -/
theorem strcpy_eq (dest : Nat → UInt8) {w : List UInt8} (hw : ∀ c ∈ w, c ≠ 0) (tail : List UInt8) :
    strcpy dest ((w ++ 0 :: tail).getD · 0) (w ++ 0 :: tail).length =
      fun i => (w ++ [0]).getD i (dest i) := by
  unfold strcpy
  rw [cstringAt_getD hw]
  rw [List.length_append]
  exact Nat.le_add_right _ _

/-- The whole function: the text is written when its terminator fits as well. -/
theorem formatRecievedData_eq (msg : List UInt8) (formatted : Nat → UInt8) :
    formatRecievedData msg formatted =
      if msg.length * 3 < 2 ^ 31 ∧ (textFor msg).length < msg.length * 3 then
        some ((textFor msg).length, fun i => (textFor msg ++ [0]).getD i (formatted i))
      else none := by
  by_cases hint : msg.length * 3 < 2 ^ 31
  · cases msg with
    | nil => rfl
    | cons value msg =>
      have hroom : malloc ((value :: msg).length * 3) =
          [] ++ 0 :: List.replicate ((value :: msg).length * 3 - 1) 0 :=
        replicate_room (j := 0) (by rw [List.length_cons]; omega)
      have hloop := formatLoop_eq (value :: msg) (s := []) (by simp) ((value :: msg).length * 3 - 1) 0
      have hpos : 0 < (value :: msg).length := Nat.succ_pos _
      rw [formatRecievedData, if_pos hint, hroom]
      show ((value :: msg).foldlM formatByte (between [] _ 0)).bind _ = _
      rw [hloop]
      by_cases hfits : (textFor (value :: msg)).length < (value :: msg).length * 3
      · rw [if_pos (by omega), if_pos ⟨hint, hfits⟩, List.nil_append, Nat.zero_add]
        show (stringIn (textFor (value :: msg) ++ 0 :: _)).bind _ = _
        rw [stringIn_eq]
        exact congrArg (fun mem => some ((textFor (value :: msg)).length, mem))
          (strcpy_eq formatted ne_zero_of_mem_textFor _)
      · rw [if_neg (by omega), if_neg (fun h => hfits h.2)]
        rfl
  · rw [formatRecievedData, if_neg hint, if_neg (fun h => hint h.1)]

/-! ## What the values have to be -/

/-- Three characters a byte, one more from 100 on, and one less for a single digit. -/
theorem length_wordOf (value : UInt8) :
    (wordOf value).length + 1 + (if 0 < value ∧ value < 10 then 1 else 0) =
      3 + if 100 ≤ value then 1 else 0 := by
  by_cases h0 : value = 0
  · subst h0
    decide
  · have hpos : value.toNat ≠ 0 := fun h => h0 (UInt8.toNat_inj.mp h)
    have hlow : 0 < value ∧ value < 10 ↔ value.toNat < 10 := by
      rw [UInt8.lt_iff_toNat_lt, UInt8.lt_iff_toNat_lt]
      exact and_iff_right (Nat.pos_of_ne_zero hpos)
    have hhigh : 100 ≤ value ↔ 100 ≤ value.toNat := UInt8.le_iff_toNat_le
    have hbounds := fun k => length_numeral_le_iff (k := k) (n := value.toNat)
    have h1 := hbounds 0
    have h2 := hbounds 1
    have h3 := hbounds 2
    have h4 := hbounds 3
    have hlt := UInt8.toNat_lt value
    rw [wordOf, if_neg h0]
    simp only [hlow, hhigh]
    split <;> split <;> omega

theorem length_textFor (msg : List UInt8) :
    (textFor msg).length + msg.countP (fun b => 0 < b ∧ b < 10) =
      msg.length * 3 + msg.countP (fun b => 100 ≤ b) := by
  induction msg with
  | nil => rfl
  | cons value msg ih =>
    have := length_wordOf value
    rw [length_textFor_cons, List.countP_cons, List.countP_cons, List.length_cons]
    simp only [decide_eq_true_eq]
    omega

/-- The message is formatted: the text has a numeral and a space for every byte, in order, it is
terminated, its length is returned, and reading it gives the message back. -/
def Formats (msg : List UInt8) (formattedMessage : Nat → UInt8) : Prop :=
  ∃ words mem, List.Forall₂ Numeral words (msg.map UInt8.toNat) ∧
    formatRecievedData msg formattedMessage = some ((textOf words).length, mem) ∧
    (∀ i (h : i < (textOf words).length), mem i = (textOf words)[i]) ∧
    mem (textOf words).length = 0 ∧ (∀ c ∈ textOf words, c ≠ 0) ∧
    readNumbers 0 (textOf words) = msg.map UInt8.toNat

/-- A message is formatted when its length can be tripled, and it has more bytes of a single digit
other than 0 than bytes of three digits. -/
theorem formatRecievedData_formats_iff (msg : List UInt8) (formattedMessage : Nat → UInt8) :
    Formats msg formattedMessage ↔
      msg.length * 3 < 2 ^ 31 ∧
        msg.countP (fun b => 100 ≤ b) < msg.countP (fun b => 0 < b ∧ b < 10) := by
  have hlen := length_textFor msg
  have hrun := formatRecievedData_eq msg formattedMessage
  constructor
  · rintro ⟨words, mem, -, hsome, -⟩
    rw [hsome] at hrun
    split at hrun
    · next hfits => exact ⟨hfits.1, by omega⟩
    · exact absurd hrun (by simp)
  · rintro ⟨hint, hcount⟩
    rw [if_pos ⟨hint, by omega⟩] at hrun
    refine ⟨_, _, numerals_words msg, hrun, ?_, ?_, ne_zero_of_mem_textFor,
      readNumbers_textOf (numerals_words msg)⟩
    · intro i (hi : i < (textFor msg).length)
      show (textFor msg ++ [0]).getD i _ = (textFor msg)[i]
      rw [List.getD_append _ _ _ _ hi, List.getD_eq_getElem]
    · show (textFor msg ++ [0]).getD (textFor msg).length _ = 0
      rw [List.getD_append_right _ _ _ _ (Nat.le_refl _), Nat.sub_self]
      rfl

/-- `200 ` takes four characters, and the buffer has three. -/
theorem highByte_overruns : ¬Formats [200] (fun _ => 0) := by
  rintro ⟨words, mem, -, hsome, -⟩
  have hnone : (formatRecievedData [200] (fun _ => 0)).isNone = true := by decide
  rw [hsome] at hnone
  exact absurd hnone (by simp)

end TX2SecureUart.Camera.Format
