import Mathlib.Data.List.Nodup
import LetPoly.Scope

/-!
# The visible bindings of a scope

A scope is listed frame by frame, without the bindings that an inner frame hides
(`Scope.toList_nest`).  So the list has every name once, with the value that a look-up finds.

* `Frame.names_ofList`, `Frame.get?_ofList`   a frame that is made from a list;
* `Scope.nodup_toList`, `Scope.mem_toList_iff`   the list is the map.
-/

namespace LetPoly

universe u
variable {α : Type u} {x : String} {a : α}

theorem Frame.mem_of_get? {f : Frame α} (h : f.get? x = some a) : (x, a) ∈ f.entries := by
  obtain ⟨l₁, l₂, hl, -⟩ := List.lookup_eq_some_iff.1 h
  rw [hl]
  exact List.mem_append_right l₁ List.mem_cons_self

theorem Frame.get?_of_mem {f : Frame α} (h : (x, a) ∈ f.entries) : f.get? x = some a := by
  have hsome : (f.get? x).isSome := by
    rw [← Frame.contains_eq_isSome_get?, Frame.contains, List.any_eq_true]
    exact ⟨(x, a), h, beq_self_eq_true x⟩
  obtain ⟨b, hb⟩ := Option.isSome_iff_exists.1 hsome
  have hinj := List.inj_on_of_nodup_map f.nodup (mem_of_get? hb) h rfl
  rw [hb, (Prod.mk.inj hinj).2]

theorem Frame.mem_entries_iff {f : Frame α} : (x, a) ∈ f.entries ↔ f.get? x = some a :=
  ⟨Frame.get?_of_mem, Frame.mem_of_get?⟩

theorem Frame.contains_iff_mem {f : Frame α} : f.contains x ↔ x ∈ f.entries.map Prod.fst := by
  rw [Frame.contains, List.any_eq_true, List.mem_map]
  refine exists_congr fun e => and_congr_right fun _ => ?_
  rw [beq_iff_eq, eq_comm]

theorem Frame.contains_names (f : Frame α) (x : String) :
    (f.entries.map Prod.fst).contains x = f.contains x := by
  rw [Bool.eq_iff_iff, List.contains_iff_mem, Frame.contains_iff_mem]

/-! ## frames from lists -/

namespace Frame

theorem contains_insert (f : Frame α) (x y : String) (a : α) :
    (f.insert x a).contains y = (y == x || f.contains y) := by
  rw [contains_eq_isSome_get?, contains_eq_isSome_get?, get?_insert]
  by_cases h : y = x
  · rw [if_pos h, beq_iff_eq.2 h]
    rfl
  · rw [if_neg h, beq_eq_false_iff_ne.2 h]
    rfl

theorem names_insertAll (f : Frame α) (l : List (String × α)) :
    (l.foldl (fun f e => f.insert e.1 e.2) f).entries.map Prod.fst =
      f.entries.map Prod.fst ++ ((l.map Prod.fst).filter fun x => !f.contains x).eraseDups := by
  induction l generalizing f with
  | nil => simp
  | cons e l ih =>
    have hnames : (f.insert e.1 e.2).entries.map Prod.fst = _ := map_fst_put e.1 e.2 f.entries
    rw [List.foldl_cons, ih, hnames, List.map_cons, List.filter_cons]
    simp only [contains_insert]
    by_cases h : f.contains e.1
    · have hmem := contains_iff_mem.1 h
      rw [if_pos hmem, if_neg (by simp [h])]
      congr 2
      refine List.filter_congr fun x _ => ?_
      by_cases hx : x = e.1
      · simp [hx, h]
      · simp [hx]
    · have hmem := fun hm => h (contains_iff_mem.2 hm)
      rw [if_neg hmem, if_pos (by simp [h]), List.eraseDups_cons, List.append_assoc,
        List.filter_filter, List.singleton_append]
      simp only [Bool.not_or]

theorem names_ofList (l : List (String × α)) :
    (ofList l).entries.map Prod.fst = (l.map Prod.fst).eraseDups := by
  have hall : (l.map Prod.fst).filter (fun x => !(({} : Frame α).contains x)) = l.map Prod.fst :=
    List.filter_eq_self.2 fun _ _ => rfl
  rw [ofList, names_insertAll, hall]
  rfl

theorem get?_insertAll (f : Frame α) (l : List (String × α)) (x : String) :
    (l.foldl (fun f e => f.insert e.1 e.2) f).get? x = (l.reverse.lookup x).or (f.get? x) := by
  induction l generalizing f with
  | nil => rfl
  | cons e l ih =>
    obtain ⟨y, a⟩ := e
    rw [List.foldl_cons, ih, get?_insert, List.reverse_cons, List.lookup_append, List.lookup_cons,
      List.lookup_nil]
    by_cases h : x = y
    · rw [if_pos h, beq_iff_eq.2 h]
      cases l.reverse.lookup x <;> rfl
    · rw [if_neg h, beq_eq_false_iff_ne.2 h, Option.or_none]

theorem get?_ofList (l : List (String × α)) (x : String) :
    (ofList l).get? x = l.reverse.lookup x := by
  rw [ofList, get?_insertAll, get?_empty, Option.or_none]

end Frame

/-! ## whole scopes -/

namespace Scope

/-- the names of a frame have been seen after it, whether it lists them or they were seen before -/
theorem contains_seen (seen : List String) (f : Frame α) (x : String) :
    ((f.entries.filter fun e => !seen.contains e.1).map Prod.fst ++ seen).contains x =
      (f.contains x || seen.contains x) := by
  rw [Bool.eq_iff_iff, Bool.or_eq_true, Frame.contains_iff_mem, List.contains_iff_mem,
    List.contains_iff_mem, List.mem_append, List.mem_map, List.mem_map]
  constructor
  · rintro (⟨e, he, rfl⟩ | h)
    · exact .inl ⟨e, (List.mem_filter.1 he).1, rfl⟩
    · exact .inr h
  · rintro (⟨e, he, rfl⟩ | h)
    · by_cases hseen : e.1 ∈ seen
      · exact .inr hseen
      · exact .inl ⟨e, List.mem_filter.2 ⟨he, by simpa using hseen⟩, rfl⟩
    · exact .inr h

theorem unseen_nil_cons (f : Frame α) (fs : List (Frame α)) :
    unseen [] (f :: fs) = f.entries ++ unseen (f.entries.map Prod.fst) fs := by
  have hall : f.entries.filter (fun e => !([] : List String).contains e.1) = f.entries :=
    List.filter_eq_self.2 fun _ _ => rfl
  rw [unseen, hall, List.append_nil]

theorem unseen_eq_filter (seen : List String) (fs : List (Frame α)) :
    unseen seen fs = (unseen [] fs).filter fun e => !seen.contains e.1 := by
  induction fs generalizing seen with
  | nil => rfl
  | cons f fs ih =>
    rw [unseen_nil_cons, unseen, ih, ih (f.entries.map Prod.fst), List.filter_append,
      List.filter_filter]
    congr 2
    funext e
    rw [contains_seen, f.contains_names, Bool.not_or, Bool.and_comm]

theorem toList_nest (s : Scope α) (f : Frame α) :
    (s.nest f).toList = f.entries ++ s.toList.filter fun e => !f.contains e.1 := by
  rw [toList, toList, nest, unseen_nil_cons, unseen_eq_filter]
  simp only [Frame.contains_names]

theorem nodup_toList (s : Scope α) : (s.toList.map Prod.fst).Nodup := by
  obtain ⟨fs⟩ := s
  induction fs with
  | nil => exact List.nodup_nil
  | cons f fs ih =>
    have hnest : (⟨f :: fs⟩ : Scope α).toList = _ := toList_nest ⟨fs⟩ f
    rw [hnest, List.map_append]
    refine List.nodup_append.2 ⟨f.nodup, ?_, fun x hx y hy hxy => ?_⟩
    · exact ih.sublist (List.filter_sublist.map Prod.fst)
    · obtain ⟨e, he, rfl⟩ := List.mem_map.1 hy
      have hnot := (List.mem_filter.1 he).2
      rw [Frame.contains_iff_mem.2 (hxy ▸ hx)] at hnot
      cases hnot

theorem mem_toList_iff {s : Scope α} : (x, a) ∈ s.toList ↔ s.get? x = some a := by
  obtain ⟨fs⟩ := s
  induction fs with
  | nil => exact ⟨fun h => absurd h List.not_mem_nil, nofun⟩
  | cons f fs ih =>
    have hnest : (⟨f :: fs⟩ : Scope α).toList = _ := toList_nest ⟨fs⟩ f
    have hget : (⟨f :: fs⟩ : Scope α).get? x = _ := get?_nest ⟨fs⟩ f x
    rw [hnest, hget, List.mem_append, List.mem_filter, Frame.mem_entries_iff, ih,
      Frame.contains_eq_isSome_get?]
    cases f.get? x with
    | none => simp
    | some b => simp

/-- a scope that is made from a list has nothing else -/
theorem mem_of_get?_ofList {l : List (String × α)} (h : (ofList l).get? x = some a) :
    (x, a) ∈ l := by
  rw [ofList, get?_nest, get?_empty, Option.or_none, Frame.get?_ofList] at h
  obtain ⟨l₁, l₂, hl, -⟩ := List.lookup_eq_some_iff.1 h
  rw [← List.mem_reverse, hl]
  exact List.mem_append_right l₁ List.mem_cons_self

end Scope
end LetPoly
