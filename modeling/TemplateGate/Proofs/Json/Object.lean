/-
# `Proofs.Json.Object` — objects as they are written

The members of a value that was read have different keys, because a member
that comes again takes the place of an earlier one.  `ObjectOf` keeps what is
lost by that: the members of an object one after the other, as the text has
them.

A text has one such list at most (`ObjectOf.unique`), since a reader that
gathers members without replacing any finds it (`written`).
-/
import TemplateGate.Proofs.Json.Exact

namespace TemplateGate.Json

open Grammar Text

/-- An object, as its members in the order in which they are written. -/
inductive Grammar.Braced (depth : Nat) : List Char → Members → Prop
  | mk {src : List Char} {ms : Members} :
      Enclosed (Member (Padded (Grammar.Denotes depth))) src ms →
        Braced depth ('{' :: (src ++ ['}'])) ms

/-- A text is an object that is written with the given members, in this order
and each as often as it is there. -/
def ObjectOf (ms : Members) (text : String) : Prop :=
  Padded (Braced (maxDepth - 1)) text.toList ms

/-! ## A reader that replaces nothing -/

/-- Members with one more at the end. -/
def Members.append (acc : Members) (m : String × Value) : Members := acc ++ [m]

theorem Members.foldl_append (ms : Members) :
    ∀ acc : Members, ms.foldl Members.append acc = acc ++ ms := by
  induction ms with
  | nil => exact fun acc => (List.append_nil acc).symm
  | cons m ms ih =>
      intro acc
      rw [List.foldl_cons, ih, Members.append, List.append_assoc, List.singleton_append]

/-- The members of an object as they are written. -/
def written (depth : Nat) : List Token → Except Fault (Members × List Token)
  | .openObject :: ts => members (foldMember Members.append (value depth)) [] ts
  | _ => .error .malformed

section

variable {depth : Nat} {ms : Members}

theorem leads_of_written {cs : List Char} {ts : List Token}
    (h : written depth (tokens cs) = .ok (ms, ts)) : Leads (Led (Braced depth)) cs ms ts := by
  generalize htokens : tokens cs = ts₀ at h
  unfold written at h
  split at h
  · obtain ⟨before, rest, rfl, hbefore, rfl⟩ := exists_of_tokens_mark rfl htokens
    obtain ⟨body, rest', ms', rfl, hbody, rfl, rfl⟩ := enclosed_of_members leads_of_value h
    rw [Members.foldl_append, List.nil_append]
    have hlead := Leads.mk rest' (Led.mk hbefore (Braced.mk hbody))
    simpa using hlead
  · cases h

theorem takes_written {src : List Char} (h : Braced depth src ms) :
    Takes (written depth) src ms := by
  intro tail _
  cases h with
  | @mk body _ hbody =>
      have hread : ∀ {src v}, Padded (Grammar.Denotes depth) src v → Takes (value depth) src v :=
        Takes.padded takes_value
      obtain ⟨hmembers, hlength⟩ := members_of_enclosed hread hbody ([] : Members) tail
      rw [List.cons_append, List.append_assoc, tokens_openObject, List.singleton_append]
      refine ⟨hmembers.trans ?_, ?_⟩
      · rw [Members.foldl_append, List.nil_append]
      · rw [List.length_cons]
        omega

/-- The reader finds the members exactly as they are written. -/
theorem finish_written_eq_ok_iff {cs : List Char} :
    finish (written depth (tokens cs)) = .ok ms ↔ Padded (Braced depth) cs ms :=
  finish_eq_ok_iff_padded leads_of_written takes_written

end

theorem ObjectOf.unique {ms ms' : Members} {text : String} (h : ObjectOf ms text)
    (h' : ObjectOf ms' text) : ms = ms' :=
  Except.ok.inj ((finish_written_eq_ok_iff.mpr h).symm.trans (finish_written_eq_ok_iff.mpr h'))

theorem runs_append {read : List Token → Except Fault (Value × List Token)} {ms : Members}
    (h : ∀ m ∈ ms, ReadsAs read m.2 m.2) :
    ∀ acc : Members, Runs (foldMember Members.append read) acc ms (acc ++ ms) := by
  induction ms with
  | nil =>
      intro acc
      rw [List.append_nil]
      exact .nil
  | cons m ms ih =>
      intro acc
      have hrest := ih (fun m' hm' => h m' (List.mem_cons_of_mem m hm')) (acc ++ [m])
      rw [List.append_assoc, List.singleton_append] at hrest
      refine .cons (fun rest => ?_) hrest
      exact bind_eq_ok_iff.mpr ⟨_, rfl, bind_eq_ok_iff.mpr ⟨_, h m List.mem_cons_self rest, rfl⟩⟩

/-- Where the tokens of a text are those of an object, it is written with the members of that. -/
theorem objectOf_of_tokens {ms : Members} {text : String}
    (h : ∀ m ∈ ms, m.2.depth ≤ maxDepth - 1 ∧ m.2.Distinct)
    (htokens : tokens text.toList = (Value.object ms).tokens) : ObjectOf ms text := by
  have hruns := runs_append (fun m hm => value_tokens (h m hm).1 (h m hm).2) []
  refine finish_written_eq_ok_iff.mp (finish_eq_ok_iff.mpr ?_)
  rw [htokens, Value.tokens_object_eq]
  exact members_tokens hruns []

end TemplateGate.Json
