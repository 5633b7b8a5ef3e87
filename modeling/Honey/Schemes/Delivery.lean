import Mathlib.Data.List.Basic
import Mathlib.Logic.Function.Basic

/-! Orders over an unreliable wire, and the sender's record of what the receiver last carried out.

        sender     opened --send--> waiting --reply--> answered --> closed
                                       +------lose------+
        receiver   unsent --------> queued --execute--> executed

    The receiver takes the queued orders in any order, and after a lost reply the sender does not know what became of
    the order. The record is right (`Kept`) as long as the last order carried out is recorded, or has a sender that will
    record it. -/

namespace Honey.Schemes
open Option List

/-- Where the sender stands. -/
inductive Stage where
  | opened
  | waiting
  | answered (ok : Bool)
  | closed
  deriving DecidableEq

/-- Where the receiver stands. -/
inductive Receipt where
  | unsent
  | queued
  | executed (ok : Bool)
  deriving DecidableEq

structure Order (α : Type*) where
  body : α
  stage : Stage
  receipt : Receipt

section

variable {α η : Type*}

def Order.send : Order α → Order α
  | ⟨b, .opened, .unsent⟩ => ⟨b, .waiting, .queued⟩
  | o => o

def Order.execute (ok : Bool) : Order α → Order α
  | ⟨b, s, .queued⟩ => ⟨b, s, .executed ok⟩
  | o => o

def Order.reply : Order α → Order α
  | ⟨b, .waiting, .executed ok⟩ => ⟨b, .answered ok, .executed ok⟩
  | o => o

def Order.lose : Order α → Order α
  | ⟨b, .waiting, r⟩ => ⟨b, .answered false, r⟩
  | o => o

def Order.close (o : Order α) : Order α := { o with stage := .closed }

/-- Carried out, and the sender will learn of it. -/
def Order.Live (o : Order α) : Prop :=
  o.stage = .answered true ∨ o.stage = .waiting ∧ o.receipt = .executed true

/-- All orders so far, and the last one that was carried out. -/
structure Wire (α : Type*) where
  orders : List (Order α)
  current : Option ℕ

namespace Wire

def stage (w : Wire α) (i : ℕ) : Option Stage := w.orders[i]?.map (·.stage)

def body (w : Wire α) (i : ℕ) : Option α := w.orders[i]?.map (·.body)

/-- What the receiver holds. -/
def held (w : Wire α) : Option α := w.current.bind w.body

def Live (w : Wire α) : Prop := ∃ i o, w.current = some i ∧ w.orders[i]? = some o ∧ o.Live

/-- No order is on its way. -/
def Idle (w : Wire α) : Prop := ∀ o ∈ w.orders, o.stage = .closed

def place (w : Wire α) (b : α) : Wire α := { w with orders := w.orders ++ [⟨b, .opened, .unsent⟩] }

def move (w : Wire α) (i : ℕ) (f : Order α → Order α) : Wire α :=
  { w with orders := w.orders.modify i f }

/-- The receiver takes order `i` from its queue. -/
def execute (w : Wire α) (i : ℕ) (ok : Bool) : Wire α :=
  { orders := w.orders.modify i (Order.execute ok)
    current := if ok ∧ w.orders[i]?.map (·.receipt) = some .queued then some i else w.current }

end Wire

/-- The record is that of what the receiver holds, or will be. -/
def Kept (hash : α → η) (w : Wire α) (record : Option η) : Prop :=
  w.Live ∨ ∀ h, record = some h → ∃ b, w.held = some b ∧ hash b = h

variable {hash : α → η} {w : Wire α} {record : Option η} {i : ℕ}

theorem Wire.body_place (b : α) {a : α} (h : w.body i = some a) : (w.place b).body i = some a := by
  obtain ⟨o, ho, rfl⟩ := map_eq_some_iff.mp h
  rw [body, place, List.getElem?_append_left (List.getElem?_eq_some_iff.mp ho).1, ho]
  rfl

variable {f : Order α → Order α}

theorem Wire.body_move (hf : ∀ o, (f o).body = o.body) (j : ℕ) : (w.move i f).body j = w.body j := by
  rw [body, move, getElem?_modify, body]
  rcases w.orders[j]? with _ | o
  · rfl
  by_cases hij : i = j
  · simpa [hij] using hf o
  · simp [hij]

theorem Wire.held_move (hf : ∀ o, (f o).body = o.body) : (w.move i f).held = w.held := by
  have hbody : (w.move i f).body = w.body := funext (body_move hf)
  rw [held, hbody, move, held]

theorem Wire.live_move (h : w.Live) (hf : ∀ o, w.current = some i → w.orders[i]? = some o → o.Live → (f o).Live) :
    (w.move i f).Live := by
  obtain ⟨j, o, hj, ho, hlive⟩ := h
  by_cases hij : i = j
  · refine ⟨j, f o, hj, ?_, hf o (hij ▸ hj) (hij ▸ ho) hlive⟩
    simp [move, hij, ho]
  · refine ⟨j, o, hj, ?_, hlive⟩
    simp [move, hij, ho]

section

variable (h : Kept hash w record)
include h

theorem kept_move (hbody : ∀ o, (f o).body = o.body)
    (hlive : ∀ o, w.current = some i → w.orders[i]? = some o → o.Live → (f o).Live) :
    Kept hash (w.move i f) record := by
  rcases h with h | h
  · exact .inl (Wire.live_move h hlive)
  · refine .inr fun x hx => ?_
    rw [Wire.held_move hbody]
    exact h x hx

omit h in
theorem kept_place (b : α) (h : Kept hash w record) : Kept hash (w.place b) record := by
  rcases h with ⟨j, o, hj, ho, hlive⟩ | h
  · refine .inl ⟨j, o, hj, ?_, hlive⟩
    rw [Wire.place, List.getElem?_append_left (List.getElem?_eq_some_iff.mp ho).1, ho]
  refine .inr fun x hx => ?_
  obtain ⟨a, ha, hax⟩ := h x hx
  obtain ⟨j, hj, hbody⟩ := bind_eq_some_iff.mp ha
  exact ⟨a, bind_eq_some_iff.mpr ⟨j, hj, Wire.body_place b hbody⟩, hax⟩

theorem kept_send : Kept hash (w.move i Order.send) record := by
  refine kept_move h ?_ ?_
  · rintro ⟨b, _ | _ | _ | _, _ | _ | _⟩ <;> rfl
  · rintro ⟨b, s, r⟩ - - (rfl | ⟨rfl, rfl⟩)
    · exact .inl rfl
    · exact .inr ⟨rfl, rfl⟩

theorem kept_reply : Kept hash (w.move i Order.reply) record := by
  refine kept_move h ?_ ?_
  · rintro ⟨b, _ | _ | _ | _, _ | _ | _⟩ <;> rfl
  · rintro ⟨b, s, r⟩ - - (rfl | ⟨rfl, rfl⟩)
    · exact .inl rfl
    · exact .inl rfl

/-- The reply of an order may be lost if a later one has been carried out, or it has not been. -/
theorem kept_lose (hi : w.current ≠ some i) : Kept hash (w.move i Order.lose) record := by
  refine kept_move h ?_ fun o hc => absurd hc hi
  rintro ⟨b, _ | _ | _ | _, r⟩ <;> rfl

theorem kept_close (hi : ∀ o, w.current = some i → w.orders[i]? = some o → ¬ o.Live) :
    Kept hash (w.move i Order.close) record :=
  kept_move h (fun _ => rfl) fun o hc ho hlive => absurd hlive (hi o hc ho)

omit h in
theorem kept_execute (ok : Bool) (h : Kept hash w record)
    (hwait : ok → w.stage i = some .waiting) : Kept hash (w.execute i ok) record := by
  by_cases hc : ok ∧ w.orders[i]?.map (·.receipt) = some .queued
  · obtain ⟨rfl, hq⟩ := hc
    obtain ⟨⟨b, s, r⟩, ho, rfl⟩ := map_eq_some_iff.mp hq
    obtain ⟨o, ho', hs⟩ := map_eq_some_iff.mp (hwait rfl)
    obtain rfl := some.inj (ho.symm.trans ho')
    refine .inl ⟨i, ⟨b, .waiting, .executed true⟩, if_pos ⟨rfl, hq⟩, ?_, .inr ⟨rfl, rfl⟩⟩
    cases hs
    simp [Wire.execute, ho, Order.execute]
  · rw [Wire.execute, if_neg hc]
    refine kept_move h ?_ ?_
    · rintro ⟨b, s, _ | _ | _⟩ <;> rfl
    · rintro ⟨b, s, r⟩ - - (rfl | ⟨rfl, rfl⟩)
      · cases r <;> exact .inl rfl
      · exact .inr ⟨rfl, rfl⟩

omit h in
/-- The record is written for the last order carried out, or that order has a sender of its own. -/
theorem kept_finish {b : α} (hb : w.body i = some b) (hi : w.current = some i ∨ w.Live) :
    Kept hash (w.move i Order.close) (some (hash b)) := by
  by_cases hc : w.current = some i
  · refine .inr fun x hx => ⟨b, ?_, some.inj hx⟩
    have hheld : (w.move i Order.close).held = w.held := Wire.held_move fun _ => rfl
    rw [hheld, Wire.held, hc]
    exact hb
  · exact .inl (Wire.live_move (hi.resolve_left hc) fun _ h => absurd h hc)

theorem kept_forget : Kept hash w (none : Option η) := h.imp_right fun _ x hx => by cases hx

theorem held_of_idle (hidle : w.Idle) {x : η} (hx : record = some x) : ∃ b, w.held = some b ∧ hash b = x := by
  rcases h with ⟨i, o, -, ho, hlive⟩ | h
  · have hclosed := hidle o (mem_of_getElem? ho)
    rw [Order.Live, hclosed] at hlive
    rcases hlive with hs | ⟨hs, -⟩ <;> cases hs
  · exact h x hx

end

end

end Honey.Schemes
