/-
# `Update.Walk` — a run over the entries, partition by partition

A run is seen as a sequence of blocks, one for each partition that is done with:
its name, and the writes made for it.  `Blocks` says what holds of them in any
run: no partition twice, each block with the outcome that its partition has on
this device, and no block before that of the partition it depends on.

A run that was given up has some writes of one more partition behind the blocks.
-/
import TX2SecureUart.Update.Search

namespace TX2SecureUart.Update

open Prog Storage StrRead

/-- An update payload on a device with known criteria, if it has any. -/
structure Payload where
  buf : Buffer
  bh : BlobInfo
  num : Nat
  criteria : Option Criteria

/-- A payload as it is walked: what the primitives answer, what the ratchet check
said, and the slot. -/
structure Job extends Payload where
  pat : Pattern
  required : Bool
  suffix : List UInt8

/-- A partition that is done with. -/
structure Block where
  name : List UInt8
  ws : List Write

namespace Payload

variable (P : Payload)

/-- The entry that is written for a partition. -/
def Chooses (n : List UInt8) (j : Nat) : Prop :=
  ∃ c, P.criteria = some c ∧ Chosen P.buf P.bh P.num c n j

/-- Nothing outside the payload is touched for this partition. -/
def Clean (n : List UInt8) : Prop :=
  ∀ c, P.criteria = some c → Searchable P.buf P.bh P.num c n ∧
    ∀ j, Chosen P.buf P.bh P.num c n j → NameOk P.buf (entryAt P.buf P.bh j) ∧
      InRange P.buf (dataAt P.buf P.bh j) (sizeAt P.buf P.bh j)

/-- The partitions that a run comes to: those of the first 256 entries, and those
they depend on. -/
inductive Reached : List UInt8 → Prop
  | entry {i : Nat} : i < P.num → i < 256 → Reached (entryName P.buf P.bh i)
  | dependency {n d : List UInt8} : Reached n → (n, d) ∈ updateSequence → Reached d

def AllClean : Prop := ∀ n, P.Reached n → P.Clean n

/-- The writes of an entry to the slots of a plan. -/
def writes (n : List UInt8) (j : Nat) (slots : List (Option Nat)) : List Write :=
  slots.map (theWrite n (dataAt P.buf P.bh j) (sizeAt P.buf P.bh j) · true)

end Payload

namespace Job

variable (J : Job)

/-- What is written for a partition that is done with. -/
inductive Outcome (n : List UInt8) : List Write → Prop
  | none : (∀ j, ¬ J.Chooses n j) → Outcome n []
  | made {j : Nat} {slots : List (Option Nat)} : J.Chooses n j →
      Plan J.pat J.required J.suffix n slots → Outcome n (J.writes n j slots)

/-- What is written for a partition that was given up. -/
inductive Unfinished (n : List UInt8) : List Write → Prop
  | none : Unfinished n []
  | tried {j : Nat} {slots : List (Option Nat)} {ws : List Write} : J.Chooses n j →
      Plan J.pat J.required J.suffix n slots →
      Attempt n (dataAt J.buf J.bh j) (sizeAt J.buf J.bh j) slots ws → Unfinished n ws

structure Blocks (bs : List Block) : Prop where
  nodup : (bs.map Block.name).Nodup
  outcome : ∀ b ∈ bs, J.Outcome b.name b.ws
  clean : ∀ b ∈ bs, J.Clean b.name
  reached : ∀ b ∈ bs, J.Reached b.name
  deps : ∀ pre b post, bs = pre ++ b :: post → ∀ d, (b.name, d) ∈ updateSequence →
    d ∈ pre.map Block.name

/-- Writes of one more partition, begun in its turn. -/
def Ragged (bs : List Block) (ws : List Write) : Prop :=
  ws = [] ∨ ∃ n, n ∉ bs.map Block.name ∧ J.Reached n ∧
    (∀ d, (n, d) ∈ updateSequence → d ∈ bs.map Block.name) ∧ J.Unfinished n ws

end Job

theorem Job.Outcome.unfinished {J : Job} {n : List UInt8} {ws : List Write}
    (h : J.Outcome n ws) : J.Unfinished n ws := by
  cases h with
  | none => exact .none
  | made hj hp => exact .tried hj hp (attempt_all n _)

variable {buf : Buffer} {bh : BlobInfo} {num : Nat} {dev : Device} {pat : Pattern} {s t u : State}
  {J : Job} {n d : List UInt8} {bs : List Block} {b : Block}

theorem Job.Blocks.nil : J.Blocks [] where
  nodup := List.nodup_nil
  outcome _ h := absurd h List.not_mem_nil
  clean _ h := absurd h List.not_mem_nil
  reached _ h := absurd h List.not_mem_nil
  deps pre b post h := by simp at h

/-- One more partition is done with. -/
theorem Job.Blocks.snoc (h : J.Blocks bs) (hnew : b.name ∉ bs.map Block.name)
    (hout : J.Outcome b.name b.ws) (hclean : J.Clean b.name) (hreached : J.Reached b.name)
    (hdeps : ∀ d, (b.name, d) ∈ updateSequence → d ∈ bs.map Block.name) :
    J.Blocks (bs ++ [b]) where
  nodup := by
    rw [List.map_append]
    refine h.nodup.append (List.nodup_singleton _) ?_
    intro x hx hx'
    obtain rfl := List.mem_singleton.mp hx'
    exact hnew hx
  outcome b' hb' := by
    rcases List.mem_append.mp hb' with hb' | hb'
    · exact h.outcome b' hb'
    · exact List.mem_singleton.mp hb' ▸ hout
  clean b' hb' := by
    rcases List.mem_append.mp hb' with hb' | hb'
    · exact h.clean b' hb'
    · exact List.mem_singleton.mp hb' ▸ hclean
  reached b' hb' := by
    rcases List.mem_append.mp hb' with hb' | hb'
    · exact h.reached b' hb'
    · exact List.mem_singleton.mp hb' ▸ hreached
  deps pre b' post heq d hd := by
    rcases List.eq_nil_or_concat post with rfl | ⟨post', x, rfl⟩
    · obtain ⟨rfl, hb⟩ := List.append_inj' heq rfl
      obtain rfl := List.singleton_inj.mp hb
      exact hdeps d hd
    · have heq' : bs ++ [b] = (pre ++ b' :: post') ++ [x] := by
        rw [heq, List.append_assoc, List.cons_append, List.concat_eq_append]
      obtain ⟨rfl, -⟩ := List.append_inj' heq' rfl
      exact h.deps pre b' post' rfl d hd

/-! ## The table of dependencies -/

/-- How long the chain of dependencies of a partition is. -/
def rank (n : List UInt8) : Nat :=
  if n = ascii "mb1" then 2 else if n = brBctPartitionName then 1 else 0

theorem rank_le (n : List UInt8) : rank n < updateSequence.length + 1 := by
  rw [rank]
  split
  · decide
  · split <;> decide

theorem rank_dependency (h : (n, d) ∈ updateSequence) : rank d < rank n := by
  simp only [updateSequence, List.mem_cons, Prod.mk.injEq, List.not_mem_nil, or_false] at h
  rcases h with ⟨rfl, rfl⟩ | ⟨rfl, rfl⟩ <;> decide

theorem dependencyIn_eq {part : Str} (hpart : Readable gptPartNameLen (part.bytes buf)) :
    ∀ {l : List (List UInt8 × List UInt8)}, (∀ e ∈ l, 0 ∉ e.1 ∧ e.1.length ≤ gptPartNameLen) →
      dependencyIn buf part l = some ((l.find? (fun e => part.name buf = e.1)).map Prod.snd)
  | [], _ => rfl
  | (p, d) :: l, hl => by
      have hp := hl (p, d) List.mem_cons_self
      have hname : (Str.const p).name buf = p := upTo_literal hp.1 hp.2
      have hcmp : strncmp gptPartNameLen (part.bytes buf) (p ++ [0]) =
          some (decide (part.name buf = p)) := by
        have h := strncmp_names (q := .const p) hpart (readable_of_mem (by simp [Str.bytes]))
        rwa [hname] at h
      rw [dependencyIn, hcmp, Option.bind_eq_bind, Option.bind_some, List.find?_cons]
      by_cases h : part.name buf = p
      · rw [if_pos (decide_eq_true h), show decide (part.name buf = p) = true from decide_eq_true h]
        rfl
      · rw [if_neg (by simpa using h),
          show decide (part.name buf = p) = false from decide_eq_false h]
        exact dependencyIn_eq hpart (fun e he => hl e (List.mem_cons_of_mem _ he))

variable (buf) in
/-- The dependency that the table gives, or none. -/
theorem getDependency_spec {part : Str} (hpart : Readable gptPartNameLen (part.bytes buf)) :
    ∃ dep, getDependency buf part = some dep ∧
      ∀ d, (part.name buf, d) ∈ updateSequence ↔ dep = some d := by
  refine ⟨_, dependencyIn_eq hpart (by decide), ?_⟩
  intro d
  simp only [updateSequence, List.find?_cons, List.find?_nil, List.mem_cons, Prod.mk.injEq,
    List.not_mem_nil, or_false]
  by_cases h₁ : part.name buf = brBctPartitionName
  · simp only [h₁, decide_true, Option.map_some, Option.some.injEq, true_and]
    have hne : ¬ brBctPartitionName = ascii "mb1" := by decide
    simp only [hne, false_and, or_false]
    exact eq_comm
  · by_cases h₂ : part.name buf = ascii "mb1"
    · have hne : ¬ ascii "mb1" = brBctPartitionName := by decide
      simp only [h₂, hne, decide_false, decide_true, Option.map_some, Option.some.injEq, false_and,
        false_or, true_and]
      exact eq_comm
    · simp [h₁, h₂]

theorem listHas_eq {part : Str} (hpart : Readable gptPartNameLen (part.bytes buf)) :
    ∀ {l : List Str}, (∀ p ∈ l, Readable gptPartNameLen (p.bytes buf)) →
      listHas buf part l = some (decide (part.name buf ∈ l.map (Str.name buf)))
  | [], _ => rfl
  | p :: l, hl => by
      have ih := listHas_eq hpart (fun q hq => hl q (List.mem_cons_of_mem p hq))
      rw [listHas, strncmp_names (hl p List.mem_cons_self) hpart, Option.bind_eq_bind,
        Option.bind_some, List.map_cons]
      by_cases h : part.name buf = p.name buf
      · rw [if_pos (decide_eq_true h.symm)]
        simp [h]
      · rw [if_neg (by simpa using fun h' => h h'.symm), ih]
        congr 1
        rw [decide_eq_decide, List.mem_cons]
        exact ⟨.inr, fun h' => h'.resolve_left h⟩

theorem name_const_dependency (h : (n, d) ∈ updateSequence) (buf : Buffer) :
    (Str.const d).name buf = d := by
  have hd : 0 ∉ d ∧ d.length ≤ gptPartNameLen := by
    revert h
    simp only [updateSequence, List.mem_cons, Prod.mk.injEq, List.not_mem_nil, or_false]
    rintro (⟨-, rfl⟩ | ⟨-, rfl⟩) <;> decide
  exact upTo_literal hd.1 hd.2

end TX2SecureUart.Update
