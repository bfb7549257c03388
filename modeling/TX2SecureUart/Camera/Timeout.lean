/-
# `Camera.Timeout` — how long a receive waits

The flag `timed_out` of `secure_uart_getc` is static: a blocking receive that
has timed out leaves it set, and the next one gives up at the first look at the
line status.  A camera is in time for a reply when the status shows each byte
before the clock shows the time-out of the call that waits for it.
-/
import TX2SecureUart.Camera.Receive
import TX2SecureUart.Camera.Memory
import TX2SecureUart.Uart.Transmit

namespace TX2SecureUart.Camera

open Prog Uart Memory

/-! ## One receive -/

/-- Between `s` and `t` no data was seen, and the clock has reached the
time-out. -/
def Waited (s t : SecurePort) : Prop :=
  (∃ ls, s.lsr = ls ++ t.lsr ∧ ∀ l ∈ ls, rxReady l = false) ∧
    ∃ start nows now, s.clock = start :: (nows ++ now :: t.clock) ∧ uartTimeoutUs ≤ now - start

/-- A blocking receive fails only after the time-out. -/
def WaitsOut (s : SecurePort) : Prop := ∀ t, secureUartGetc true s = .ok (-1) t → Waited s t

/-- The first look at the line status shows no data. -/
def LooksEmpty (s : SecurePort) : Prop :=
  ∃ start clock l ls, s.clock = start :: clock ∧ s.lsr = l :: ls ∧ rxReady l = false

section

variable {ρ : Type} {ready : ρ → Bool} {flag wait : Bool} {start : UInt64} {status : List ρ}
  {clock : List UInt64} {e : PollEnd ρ} {s t p q : SecurePort} {c : UInt8} {b : List UInt8} {r : Int}

/-- One pass of the loop. -/
theorem pollStatus_cons (l : ρ) :
    pollStatus ready flag start (l :: status) clock =
      if ready l = true then some ⟨true, false, status, clock⟩
      else if flag = true then some ⟨false, true, status, clock⟩
      else
        match clock with
        | [] => none
        | now :: clock =>
            if uartTimeoutUs ≤ now - start then some ⟨false, true, status, clock⟩
            else pollStatus ready flag start status clock := by
  cases clock with
  | nil => rfl
  | cons now clock => rfl

theorem pollStatus_timedOut (h : pollStatus ready flag start status clock = some e) :
    e.timedOut = !e.ready := by
  induction status generalizing clock with
  | nil => cases h
  | cons l status ih =>
      rw [pollStatus_cons] at h
      by_cases hl : ready l = true
      · rw [if_pos hl] at h
        cases h
        rfl
      rw [if_neg hl] at h
      cases flag with
      | true =>
          cases h
          rfl
      | false =>
          cases clock with
          | nil => cases h
          | cons now clock =>
              by_cases hnow : uartTimeoutUs ≤ now - start
              · rw [if_neg (by decide)] at h
                dsimp only at h
                rw [if_pos hnow] at h
                cases h
                rfl
              · rw [if_neg (by decide)] at h
                dsimp only at h
                rw [if_neg hnow] at h
                exact ih h

/-- Without the flag, a loop that gives up has seen the time-out. -/
theorem pollStatus_waits (h : pollStatus ready false start status clock = some e)
    (hready : e.ready = false) :
    (∃ ls, status = ls ++ e.status ∧ ∀ l ∈ ls, ready l = false) ∧
      ∃ nows now, clock = nows ++ now :: e.clock ∧ uartTimeoutUs ≤ now - start := by
  induction status generalizing clock with
  | nil => cases h
  | cons l status ih =>
      rw [pollStatus_cons] at h
      cases hl : ready l with
      | true =>
          rw [if_pos hl] at h
          cases h
          cases hready
      | false =>
          rw [if_neg (by simp [hl]), if_neg (by decide)] at h
          cases clock with
          | nil => cases h
          | cons now clock =>
              dsimp only at h
              by_cases hnow : uartTimeoutUs ≤ now - start
              · rw [if_pos hnow] at h
                cases h
                exact ⟨⟨[l], rfl, by simpa using hl⟩, [], now, rfl, hnow⟩
              · rw [if_neg hnow] at h
                obtain ⟨⟨ls, hls, hall⟩, nows, now', hclock, htime⟩ := ih h
                refine ⟨⟨l :: ls, by rw [hls]; rfl, ?_⟩, now :: nows, now', by rw [hclock]; rfl,
                  htime⟩
                intro x hx
                rcases List.mem_cons.mp hx with rfl | hx
                · exact hl
                · exact hall x hx

/-- What a receive that waits does to the port. -/
theorem secureUartGetc_true (h : secureUartGetc true s = .ok r t) :
    ∃ start clock e, s.clock = start :: clock ∧
      pollStatus rxReady s.getcTimedOut start s.lsr clock = some e ∧ t.clock = e.clock ∧
      t.lsr = e.status ∧ t.getcTimedOut = e.timedOut ∧ (r < 0 ↔ e.ready = false) := by
  have hspec : wp (secureUartGetc true) (fun r t => ∃ start clock e, s.clock = start :: clock ∧
      pollStatus rxReady s.getcTimedOut start s.lsr clock = some e ∧ t.clock = e.clock ∧
      t.lsr = e.status ∧ t.getcTimedOut = e.timedOut ∧ (r < 0 ↔ e.ready = false))
      (fun _ _ => True) s := by
    simp only [secureUartGetc, wp_bind, currentTimeHires, wp_get]
    cases hclock : s.clock with
    | nil => exact trivial
    | cons start clock =>
        cases hpoll : pollStatus rxReady s.getcTimedOut start s.lsr clock with
        | none => simp [hpoll]
        | some e =>
            cases hready : e.ready with
            | false => simp [hpoll, hready]
            | true =>
                cases hrhr : s.rhr with
                | nil => simp [hpoll, hready, readRhr]
                | cons c rhr => simp [hpoll, hready, readRhr]
  exact wp_ok hspec h

/-- With the flag and no data, a receive gives up at once. -/
theorem secureUartGetc_atOnce (hflag : s.getcTimedOut = true) (h : LooksEmpty s) :
    ∃ start t, s.clock = start :: t.clock ∧ secureUartGetc true s = .ok (-1) t := by
  obtain ⟨start, clock, l, ls, hclock, hlsr, hl⟩ := h
  have hpoll : pollStatus rxReady true start (l :: ls) clock = some ⟨false, true, ls, clock⟩ := by
    rw [pollStatus_cons, if_neg (by simp [hl]), if_pos rfl]
  have hspec : wp (secureUartGetc true) (fun r t => r = -1 ∧ t.clock = clock)
      (fun _ _ => False) s := by
    simp only [secureUartGetc, wp_bind, currentTimeHires, wp_get, hclock]
    simp [hflag, hlsr, hpoll]
  obtain ⟨r, t, hget, rfl, ht⟩ := wp_total hspec
  exact ⟨start, t, by rw [hclock, ht], hget⟩

theorem waitsOut_iff : WaitsOut s ↔ ¬(s.getcTimedOut = true ∧ LooksEmpty s) := by
  constructor
  · rintro h ⟨hflag, hempty⟩
    obtain ⟨start, t, hclock, hget⟩ := secureUartGetc_atOnce hflag hempty
    obtain ⟨_, start', nows, now, hwait, _⟩ := h t hget
    have hlen := congrArg List.length (hclock.symm.trans hwait)
    simp at hlen
    omega
  · intro h t hget
    obtain ⟨start, clock, e, hclock, hpoll, htclock, htlsr, _, hneg⟩ := secureUartGetc_true hget
    have hready : e.ready = false := hneg.mp (by decide)
    rw [Waited, htclock, htlsr]
    cases hflag : s.getcTimedOut with
    | false =>
        rw [hflag] at hpoll
        obtain ⟨hls, nows, now, hnows, htime⟩ := pollStatus_waits hpoll hready
        exact ⟨hls, start, nows, now, by rw [hclock, hnows], htime⟩
    | true =>
        refine absurd ⟨hflag, ?_⟩ h
        -- the status shows no data, or it would have been read
        cases hlsr : s.lsr with
        | nil =>
            rw [hlsr] at hpoll
            cases hpoll
        | cons l ls =>
            refine ⟨start, clock, l, ls, hclock, hlsr, ?_⟩
            rw [hlsr, pollStatus_cons] at hpoll
            cases hl : rxReady l with
            | false => rfl
            | true =>
                rw [if_pos hl] at hpoll
                cases hpoll
                cases hready

/-! ## Histories of calls -/

inductive UartCall where
  | putc (c : UInt8)
  | getc (wait : Bool)

def UartCall.run : UartCall → PortM Int
  | .putc c => secureUartPutc c
  | .getc wait => secureUartGetc wait

def runCalls : List UartCall → PortM (List Int)
  | [] => return []
  | call :: rest => do
      let r ← call.run
      let rs ← runCalls rest
      return r :: rs

/-- The last receive that read a byte or waited timed out. -/
def timedOutAfter : Bool → List (UartCall × Int) → Bool
  | flag, [] => flag
  | flag, (.putc _, _) :: rest => timedOutAfter flag rest
  | flag, (.getc wait, r) :: rest =>
      timedOutAfter (if 0 ≤ r then false else if wait then true else flag) rest

/-- The port is the same one. -/
structure SamePort (s t : SecurePort) : Prop where
  disable : t.disableSecurePort = s.disableSecurePort
  port : t.securePort = s.securePort

theorem samePort_iff : SamePort s t ↔
    t.disableSecurePort = s.disableSecurePort ∧ t.securePort = s.securePort :=
  ⟨fun h => ⟨h.disable, h.port⟩, fun h => ⟨h.1, h.2⟩⟩

theorem SamePort.refl (s : SecurePort) : SamePort s s := ⟨rfl, rfl⟩

theorem SamePort.trans (h : SamePort s t) (h' : SamePort t q) : SamePort s q :=
  ⟨h'.disable.trans h.disable, h'.port.trans h.port⟩

theorem SamePort.real (h : SamePort s t) (hreal : RealUart s) : RealUart t := by
  rw [RealUart, h.disable, h.port]
  exact hreal

theorem wp_secureUartPutc_flag : wp (secureUartPutc c)
    (fun _ t => t.getcTimedOut = s.getcTimedOut ∧ SamePort s t) (fun _ _ => True) s := by
  simp only [secureUartPutc, wp_bind, currentTimeHires, wp_get]
  cases hclock : s.clock with
  | nil => exact trivial
  | cons start clock =>
      cases hpoll : pollStatus txEmpty s.putcTimedOut start s.lsr clock with
      | none => simp [hpoll]
      | some e =>
          cases hready : e.ready with
          | false => simp [hpoll, hready, samePort_iff]
          | true => simp [hpoll, hready, samePort_iff]

theorem wp_secureUartGetc_flag : wp (secureUartGetc wait)
    (fun r t => t.getcTimedOut = (if 0 ≤ r then false else if wait then true else s.getcTimedOut) ∧
      SamePort s t) (fun _ _ => True) s := by
  simp only [secureUartGetc, wp_bind, currentTimeHires, wp_get]
  cases hclock : s.clock with
  | nil => exact trivial
  | cons start clock =>
      cases wait with
      | true =>
          cases hpoll : pollStatus rxReady s.getcTimedOut start s.lsr clock with
          | none => simp [hpoll]
          | some e =>
              have hflag := pollStatus_timedOut hpoll
              cases hready : e.ready with
              | false =>
                  rw [hready] at hflag
                  simp [hpoll, hready, hflag, samePort_iff]
              | true =>
                  rw [hready] at hflag
                  cases hrhr : s.rhr with
                  | nil => simp [hpoll, hready, readRhr]
                  | cons c rhr => simp [hpoll, hready, readRhr, hflag, samePort_iff]
      | false =>
          cases hlsr : s.lsr with
          | nil => simp
          | cons l ls =>
              cases hl : rxReady l with
              | false => simp [hl, samePort_iff]
              | true =>
                  cases hrhr : s.rhr with
                  | nil => simp [hl, readRhr]
                  | cons c rhr => simp [hl, readRhr, samePort_iff]

/-- The flag after any calls. -/
theorem wp_runCalls_flag {calls : List UartCall} : wp (runCalls calls) (fun rs t =>
    t.getcTimedOut = timedOutAfter s.getcTimedOut (calls.zip rs) ∧ SamePort s t)
    (fun _ _ => True) s := by
  induction calls generalizing s with
  | nil => exact ⟨rfl, .refl s⟩
  | cons call rest ih =>
      cases call with
      | putc c =>
          refine wp_seq wp_secureUartPutc_flag ?_
          rintro r t ⟨hflag, hport⟩
          refine wp_seq ih ?_
          rintro rs t' ⟨hflag', hport'⟩
          refine ⟨?_, hport.trans hport'⟩
          rw [hflag', hflag]
          rfl
      | getc wait =>
          refine wp_seq wp_secureUartGetc_flag ?_
          rintro r t ⟨hflag, hport⟩
          refine wp_seq ih ?_
          rintro rs t' ⟨hflag', hport'⟩
          refine ⟨?_, hport.trans hport'⟩
          rw [hflag', hflag]
          rfl

/-! ## A camera that is in time -/

/-- From `s` the camera delivers the bytes, as the driver sees it: `start` is
read when a receive begins, and a reading of the clock follows each look at the
status that shows no data.  Each byte shows before the time-out, and then
nothing comes until after it. -/
inductive InTime : SecurePort → List UInt8 → Prop
  | silence {s : SecurePort} {start now : UInt64} {nows clock : List UInt64} {ls lsr : List UInt8} :
      s.clock = start :: (nows ++ now :: clock) → s.lsr = ls ++ lsr →
      ls.length = nows.length + 1 → (∀ l ∈ ls, rxReady l = false) →
      (∀ n ∈ nows, n - start < uartTimeoutUs) → uartTimeoutUs ≤ now - start → InTime s []
  | byte {s : SecurePort} {start : UInt64} {nows clock : List UInt64} {l : UInt8}
      {ls lsr rhr : List UInt8} {c : UInt8} {b : List UInt8} :
      s.clock = start :: (nows ++ clock) → s.lsr = ls ++ l :: lsr → ls.length = nows.length →
      (∀ x ∈ ls, rxReady x = false) → rxReady l = true →
      (∀ n ∈ nows, n - start < uartTimeoutUs) → s.rhr = c :: rhr →
      InTime { s with clock := clock, lsr := lsr, rhr := rhr } b → InTime s (c :: b)

/-- The camera does not see the flag. -/
theorem InTime.setFlag (h : InTime s b) : InTime { s with getcTimedOut := flag } b := by
  induction h with
  | silence hclock hlsr hlen hls hnows hnow => exact .silence hclock hlsr hlen hls hnows hnow
  | byte hclock hlsr hlen hls hl hnows hrhr _ ih => exact .byte hclock hlsr hlen hls hl hnows hrhr ih

theorem pollStatus_inTime {nows : List UInt64} {ls lsr : List ρ} {l : ρ}
    (hlen : ls.length = nows.length) (hls : ∀ x ∈ ls, ready x = false) (hl : ready l = true)
    (hnows : ∀ n ∈ nows, n - start < uartTimeoutUs) :
    pollStatus ready false start (ls ++ l :: lsr) (nows ++ clock) = some ⟨true, false, lsr, clock⟩ := by
  induction ls generalizing nows with
  | nil =>
      obtain rfl : nows = [] := List.length_eq_zero_iff.mp hlen.symm
      rw [List.nil_append, pollStatus_cons, if_pos hl]
      rfl
  | cons x ls ih =>
      cases nows with
      | nil => cases hlen
      | cons now nows =>
          have hx : ready x = false := hls x (List.mem_cons_self ..)
          have hnow : ¬uartTimeoutUs ≤ now - start :=
            UInt64.not_le.mpr (hnows now (List.mem_cons_self ..))
          rw [List.cons_append, List.cons_append, pollStatus_cons, if_neg (by simp [hx]),
            if_neg (by decide)]
          dsimp only
          rw [if_neg hnow]
          exact ih (Nat.succ.inj hlen) (fun y hy => hls y (List.mem_cons_of_mem _ hy))
            (fun n hn => hnows n (List.mem_cons_of_mem _ hn))

theorem pollStatus_silent {nows : List UInt64} {now : UInt64} {ls lsr : List ρ}
    (hlen : ls.length = nows.length + 1) (hls : ∀ x ∈ ls, ready x = false)
    (hnows : ∀ n ∈ nows, n - start < uartTimeoutUs) (hnow : uartTimeoutUs ≤ now - start) :
    pollStatus ready false start (ls ++ lsr) (nows ++ now :: clock) =
      some ⟨false, true, lsr, clock⟩ := by
  induction ls generalizing nows with
  | nil => cases hlen
  | cons x ls ih =>
      have hx : ready x = false := hls x (List.mem_cons_self ..)
      rw [List.cons_append, pollStatus_cons, if_neg (by simp [hx]), if_neg (by decide)]
      cases nows with
      | nil =>
          obtain rfl : ls = [] := List.length_eq_zero_iff.mp (Nat.succ.inj hlen)
          dsimp only [List.nil_append]
          rw [if_pos hnow]
      | cons n nows =>
          have hn : ¬uartTimeoutUs ≤ n - start :=
            UInt64.not_le.mpr (hnows n (List.mem_cons_self ..))
          rw [List.cons_append]
          dsimp only
          rw [if_neg hn]
          exact ih (Nat.succ.inj hlen) (fun y hy => hls y (List.mem_cons_of_mem _ hy))
            (fun m hm => hnows m (List.mem_cons_of_mem _ hm))

/-- On a UART that is switched on, a receive is a call of the driver. -/
theorem wp_dgetc_real (hreal : RealUart s) {Q : Int × Option UInt8 → SecurePort → Prop}
    {E : Polling → SecurePort → Prop} :
    wp (securePlatformDgetc true) Q E s ↔ wp (secureUartGetc true) (fun r t =>
      if r < 0 then Q (-1, none) t else Q (0, some (UInt8.ofNat r.toNat)) t) E s := by
  obtain ⟨hon, huart⟩ := realUart_conds hreal
  have hcall : securePlatformDgetc true s = (do
      let r ← secureUartGetc true
      if r < 0 then return (-1, none) else return (0, some (UInt8.ofNat r.toNat))) s := by
    simp only [securePlatformDgetc, run_bind, run_get, hon, huart, Bool.false_eq_true, if_false]
  rw [wp, hcall, wp]
  simp only [run_bind]
  cases secureUartGetc true s with
  | error e t => rfl
  | ok r t =>
      by_cases hr : r < 0
      · simp only [if_pos hr, run_pure]
      · simp only [if_neg hr, run_pure]

/-- A byte that is in time is received, unless the flag is set and there is no
data yet. -/
theorem dgetc_byte {nows : List UInt64} {l : UInt8} {ls lsr rhr : List UInt8}
    (hreal : RealUart s) (hflag : ¬(s.getcTimedOut = true ∧ LooksEmpty s))
    (hclock : s.clock = start :: (nows ++ clock)) (hlsr : s.lsr = ls ++ l :: lsr)
    (hlen : ls.length = nows.length) (hls : ∀ x ∈ ls, rxReady x = false) (hl : rxReady l = true)
    (hnows : ∀ n ∈ nows, n - start < uartTimeoutUs) (hrhr : s.rhr = c :: rhr) :
    securePlatformDgetc true s =
      .ok (0, some c) { s with clock := clock, lsr := lsr, rhr := rhr, getcTimedOut := false } := by
  have hpoll : pollStatus rxReady s.getcTimedOut start s.lsr (nows ++ clock) =
      some ⟨true, false, lsr, clock⟩ := by
    rw [hlsr]
    cases hf : s.getcTimedOut with
    | false => exact pollStatus_inTime hlen hls hl hnows
    | true =>
        cases ls with
        | nil =>
            obtain rfl : nows = [] := List.length_eq_zero_iff.mp hlen.symm
            rw [List.nil_append, pollStatus_cons, if_pos hl]
            rfl
        | cons x ls =>
            exact absurd ⟨hf, start, _, x, _, hclock, hlsr, hls x (List.mem_cons_self ..)⟩ hflag
  have hspec : wp (securePlatformDgetc true) (fun r t => r = (0, some c) ∧
      t = { s with clock := clock, lsr := lsr, rhr := rhr, getcTimedOut := false })
      (fun _ _ => False) s := by
    rw [wp_dgetc_real hreal]
    simp only [secureUartGetc, wp_bind, currentTimeHires, wp_get, hclock]
    simp [hpoll, readRhr, hrhr]
  obtain ⟨r, t, hget, rfl, rfl⟩ := wp_total hspec
  exact hget

theorem dgetc_silent {nows : List UInt64} {now : UInt64} {ls lsr : List UInt8}
    (hreal : RealUart s) (hflag : s.getcTimedOut = false)
    (hclock : s.clock = start :: (nows ++ now :: clock)) (hlsr : s.lsr = ls ++ lsr)
    (hlen : ls.length = nows.length + 1) (hls : ∀ x ∈ ls, rxReady x = false)
    (hnows : ∀ n ∈ nows, n - start < uartTimeoutUs) (hnow : uartTimeoutUs ≤ now - start) :
    ∃ t, securePlatformDgetc true s = .ok (-1, none) t := by
  have hpoll := @pollStatus_silent _ rxReady start clock nows now ls lsr hlen hls hnows hnow
  have hspec : wp (securePlatformDgetc true) (fun r _ => r = (-1, none)) (fun _ _ => False) s := by
    rw [wp_dgetc_real hreal]
    simp only [secureUartGetc, wp_bind, currentTimeHires, wp_get, hclock]
    simp [hflag, hlsr, hpoll]
  obtain ⟨r, t, hget, rfl⟩ := wp_total hspec
  exact ⟨t, hget⟩

/-- Without the flag, a camera that is in time delivers all its bytes. -/
theorem delivers_of_inTime (hreal : RealUart s) (hflag : s.getcTimedOut = false)
    (h : InTime s b) : ∃ q, Delivers s b q := by
  induction b generalizing s with
  | nil =>
      cases h with
      | silence hclock hlsr hlen hls hnows hnow =>
          obtain ⟨t, hget⟩ := dgetc_silent hreal hflag hclock hlsr hlen hls hnows hnow
          exact ⟨t, .fails hget⟩
  | cons c b ih =>
      cases h with
      | byte hclock hlsr hlen hls hl hnows hrhr hrest =>
          have hget := dgetc_byte hreal (by simp [hflag]) hclock hlsr hlen hls hl hnows hrhr
          obtain ⟨q, hdel⟩ := @ih { s with clock := _, lsr := _, rhr := _, getcTimedOut := false }
            hreal rfl hrest.setFlag
          exact ⟨q, .byte hget hdel⟩

/-- A reply that is in time is collected, unless the flag is set and the first
look shows no data. -/
theorem delivers_iff (hreal : RealUart s) (hb : b ≠ []) (h : InTime s b) :
    (∃ q, Delivers s b q) ↔ ¬(s.getcTimedOut = true ∧ LooksEmpty s) := by
  cases h with
  | silence => exact absurd rfl hb
  | @byte _ start nows clock l ls lsr rhr c b hclock hlsr hlen hls hl hnows hrhr hrest =>
      constructor
      · rintro ⟨q, hdel⟩ ⟨hflag, hempty⟩
        obtain ⟨_, t, _, hget⟩ := secureUartGetc_atOnce hflag hempty
        cases hdel with
        | @byte _ t' _ _ _ hbyte _ =>
            have hspec : wp (securePlatformDgetc true) (fun r _ => r = (-1, none))
                (fun _ _ => True) s := by
              rw [wp_dgetc_real hreal, wp, hget]
              exact if_pos (by decide) |>.mpr rfl
            have hno := wp_ok hspec hbyte
            cases hno
      · intro hflag
        have hget := dgetc_byte hreal hflag hclock hlsr hlen hls hl hnows hrhr
        obtain ⟨q, hdel⟩ := @delivers_of_inTime
          { s with clock := clock, lsr := lsr, rhr := rhr, getcTimedOut := false } b hreal rfl
          hrest.setFlag
        exact ⟨q, .byte hget hdel⟩

/-! ## The handler -/

theorem wp_dputc_flag (hreal : RealUart s) : wp (securePlatformDputc c)
    (fun _ t => t.getcTimedOut = s.getcTimedOut ∧ SamePort s t) (fun _ _ => True) s := by
  obtain ⟨hon, huart⟩ := realUart_conds hreal
  have hlast : ∀ t, (t.getcTimedOut = s.getcTimedOut ∧ SamePort s t) →
      wp (secureUartPutc c >>= fun _ => pure ())
        (fun _ t => t.getcTimedOut = s.getcTimedOut ∧ SamePort s t) (fun _ _ => True) t := by
    rintro t ⟨hflag, hport⟩
    refine wp_seq wp_secureUartPutc_flag ?_
    rintro r t' ⟨hflag', hport'⟩
    exact ⟨hflag'.trans hflag, hport.trans hport'⟩
  rw [securePlatformDputc, wp_bind, wp_get, hon, huart]
  simp only [Bool.false_eq_true, if_false]
  by_cases hn : c = 0x0a
  · subst hn
    simp only [beq_self_eq_true, if_true, wp_bind]
    refine wp_conseq wp_secureUartPutc_flag ?_
    intro r t ht
    exact hlast t ht
  · by_cases h0 : c = 0x00
    · subst h0
      simp [samePort_iff]
    · simp only [beq_iff_eq, if_neg hn, if_neg h0]
      exact hlast s ⟨rfl, .refl s⟩

theorem wp_beforeReply_flag (hreal : RealUart s) {found : Bool} : wp (beforeReply found)
    (fun _ t => t.getcTimedOut = s.getcTimedOut ∧ SamePort s t) (fun _ _ => True) s := by
  refine wp_seq (wp_dputc_flag hreal) ?_
  rintro _ t₁ ⟨h₁, hp₁⟩
  refine wp_seq (wp_dputc_flag (hp₁.real hreal)) ?_
  rintro _ t₂ ⟨h₂, hp₂⟩
  refine wp_seq (wp_dputc_flag (hp₂.real (hp₁.real hreal))) ?_
  rintro _ t₃ ⟨h₃, hp₃⟩
  refine wp_conseq (wp_dputc_flag (hp₃.real (hp₂.real (hp₁.real hreal)))) ?_
  rintro _ t₄ ⟨h₄, hp₄⟩
  exact ⟨h₄.trans (h₃.trans (h₂.trans h₁)), hp₁.trans (hp₂.trans (hp₃.trans hp₄))⟩

/-- One byte of a loop that receives until it fails, or the failure. -/
theorem wp_dgetc_flag (hreal : RealUart s) : wp (securePlatformDgetc true)
    (fun r t => (r.1 < 0 → t.getcTimedOut = true) ∧ SamePort s t) (fun _ _ => True) s := by
  rw [wp_dgetc_real hreal]
  refine wp_conseq wp_secureUartGetc_flag ?_
  rintro r t ⟨hflag, hport⟩
  by_cases hr : r < 0
  · rw [if_pos hr]
    rw [if_neg (not_le.mpr hr), if_pos rfl] at hflag
    exact ⟨fun _ => hflag, hport⟩
  · rw [if_neg hr]
    exact ⟨fun h => absurd h (Int.lt_irrefl 0), hport⟩

/-- Such a loop ends with a time-out. -/
theorem delivers_timedOut (h : Delivers p b q) (hreal : RealUart p) :
    q.getcTimedOut = true ∧ SamePort p q := by
  induction h with
  | fails hget =>
      obtain ⟨hflag, hport⟩ := wp_ok (wp_dgetc_flag hreal) hget
      exact ⟨hflag (by decide), hport⟩
  | byte hget _ ih =>
      obtain ⟨_, hport⟩ := wp_ok (wp_dgetc_flag hreal) hget
      obtain ⟨hflag, hport'⟩ := ih (hport.real hreal)
      exact ⟨hflag, hport.trans hport'⟩

end

/-- A UART on which nothing arrives, with a receive that times out behind it. -/
def silentPort : SecurePort := (SecurePort.initial [0, 0] [] [0, 600000, 700000] []).enable

/-- The port after that receive. -/
def flaggedPort : SecurePort :=
  { silentPort with lsr := [0], clock := [700000], getcTimedOut := true }

theorem runCalls_silentPort : runCalls [.getc true] silentPort = .ok [-1] flaggedPort := by
  decide +kernel

theorem flaggedPort_looksEmpty : LooksEmpty flaggedPort :=
  ⟨700000, [], 0, [], rfl, rfl, rfl⟩

/-- A UART on which the reply shows 20 microseconds after the receive begins. -/
def lateReply : SecurePort :=
  (SecurePort.initial [0, 0x20, 0x20, 0x20, 0x20, 0, 1, 0] [0x76]
    [0, 600000, 600001, 600002, 600003, 600004, 600010, 600030, 600040, 1200000] []).enable

/-- After a flush that receives nothing, and the command. -/
def lateReplySent : SecurePort :=
  { lateReply with
    getcTimedOut := true, lsr := [0, 1, 0], clock := [600010, 600030, 600040, 1200000],
    thr := [0x46, 0x53, 0x35, 0x0d] }

theorem lateReply_inTime : InTime lateReplySent [0x76] := by
  have hno : ∀ l ∈ [(0 : UInt8)], rxReady l = false := by simp [rxReady]
  refine @InTime.byte lateReplySent 600010 [600030] [600040, 1200000] 1 [0] [0] [] 0x76 []
    rfl rfl rfl hno ?_ ?_ rfl ?_
  · simp [rxReady]
  · intro n hn
    rw [List.mem_singleton.mp hn]
    decide +kernel
  · refine @InTime.silence _ 600040 1200000 [] [] [0] [] rfl rfl rfl hno ?_ ?_
    · intro n hn
      cases hn
    · decide +kernel

/-- The port between the two. -/
def lateReplyFlushed : SecurePort :=
  { lateReply with
    getcTimedOut := true, lsr := [0x20, 0x20, 0x20, 0x20, 0, 1, 0],
    clock := [600001, 600002, 600003, 600004, 600010, 600030, 600040, 1200000] }

end TX2SecureUart.Camera
