/-
Reading and writing in the middle of a buffer.

A write replaces the items of its range and no others, as long as the range lies inside
the buffer.  A record is a list of fields, one after another; each is read at the length of
those before it.
-/
import Mathlib.Data.List.Basic

namespace Lib

variable {α : Type*} {buf items : List α} {pos n at_ : Nat}

/-- The `n` items from position `pos` on. -/
def readAt (buf : List α) (pos n : Nat) : List α := (buf.drop pos).take n

/-- The items put over those from position `pos` on. -/
def writeAt (buf : List α) (pos : Nat) (items : List α) : List α :=
  buf.take pos ++ items ++ buf.drop (pos + items.length)

theorem length_writeAt (h : pos + items.length ≤ buf.length) :
    (writeAt buf pos items).length = buf.length := by
  unfold writeAt
  rw [List.length_append, List.length_append, List.length_take, List.length_drop]
  omega

theorem readAt_writeAt_self (h : pos + items.length ≤ buf.length) :
    readAt (writeAt buf pos items) pos items.length = items := by
  have hfront : (buf.take pos).length = pos := by
    rw [List.length_take]
    omega
  unfold readAt writeAt
  rw [List.append_assoc, List.drop_left' hfront, List.take_left' rfl]

theorem readAt_writeAt_before (h : at_ + n ≤ pos) (hbuf : pos ≤ buf.length) :
    readAt (writeAt buf pos items) at_ n = readAt buf at_ n := by
  have hfront : (buf.take pos).length = pos := by
    rw [List.length_take]
    omega
  unfold readAt writeAt
  rw [List.append_assoc, List.drop_append_of_le_length (by omega),
    List.take_append_of_le_length (by rw [List.length_drop]; omega), List.drop_take,
    List.take_take, Nat.min_eq_left (by omega)]

theorem readAt_writeAt_after (h : pos + items.length ≤ at_) (hbuf : pos ≤ buf.length) :
    readAt (writeAt buf pos items) at_ n = readAt buf at_ n := by
  have hfront : (buf.take pos ++ items).length = pos + items.length := by
    rw [List.length_append, List.length_take]
    omega
  unfold readAt writeAt
  rw [List.drop_append, hfront, List.drop_eq_nil_of_le (by omega), List.nil_append,
    List.drop_drop, show pos + items.length + (at_ - (pos + items.length)) = at_ by omega]

theorem readAt_congr {buf' : List α} (h : ∀ i, pos ≤ i → i < pos + n → buf[i]? = buf'[i]?) :
    readAt buf pos n = readAt buf' pos n := by
  apply List.ext_getElem?
  intro i
  simp only [readAt, List.getElem?_take, List.getElem?_drop]
  split
  · exact h _ (by omega) (by omega)
  · rfl

theorem getElem?_writeAt_of_outside (h : at_ < pos ∨ pos + items.length ≤ at_)
    (hbuf : pos ≤ buf.length) : (writeAt buf pos items)[at_]? = buf[at_]? := by
  have hone : ∀ xs : List α, xs[at_]? = (readAt xs at_ 1).head? := by
    intro xs
    rw [readAt, List.head?_take, if_neg Nat.one_ne_zero, List.head?_drop]
  rw [hone, hone]
  rcases h with hbefore | hafter
  · rw [readAt_writeAt_before hbefore hbuf]
  · rw [readAt_writeAt_after hafter hbuf]

theorem getElem?_writeAt_inside (h : pos ≤ at_) (hend : at_ < pos + items.length)
    (hbuf : pos ≤ buf.length) : (writeAt buf pos items)[at_]? = items[at_ - pos]? := by
  have hfront : (buf.take pos).length = pos := by
    rw [List.length_take]
    omega
  rw [writeAt, List.append_assoc, List.getElem?_append_right (by omega), hfront,
    List.getElem?_append_left (by omega)]

/-! ### Records -/

theorem readAt_append_left {front back : List α} (h : pos + n ≤ front.length) :
    readAt (front ++ back) pos n = readAt front pos n := by
  unfold readAt
  rw [List.drop_append_of_le_length (by omega),
    List.take_append_of_le_length (by rw [List.length_drop]; omega)]

theorem readAt_append_right (front back : List α) (pos n : Nat) :
    readAt (front ++ back) (front.length + pos) n = readAt back pos n := by
  unfold readAt
  rw [← List.drop_drop, List.drop_left]

theorem readAt_field (before after : List (List α)) {field : List α}
    (hpos : before.flatten.length = pos) (hn : field.length = n) :
    readAt (before ++ field :: after).flatten pos n = field := by
  have hskip := readAt_append_right before.flatten (field ++ after.flatten) 0 n
  rw [Nat.add_zero, hpos] at hskip
  rw [List.flatten_append, List.flatten_cons, hskip, readAt, List.drop_zero, List.take_left' hn]

theorem drop_fields (before after : List (List α)) (hpos : before.flatten.length = pos) :
    (before ++ after).flatten.drop pos = after.flatten := by
  rw [List.flatten_append, List.drop_left' hpos]

theorem length_readAt (h : pos + n ≤ buf.length) : (readAt buf pos n).length = n := by
  unfold readAt
  rw [List.length_take, List.length_drop]
  omega

/-! ### Arrays -/

/-- The items at the front of an array of `n`, the rest of it blank. -/
def padTo (n : Nat) (blank : α) (items : List α) : Vector α n :=
  ⟨(items.take n ++ List.replicate (n - items.length) blank).toArray, by
    rw [List.size_toArray, List.length_append, List.length_take, List.length_replicate]
    omega⟩

theorem toList_padTo {blank : α} (h : items.length ≤ n) :
    (padTo n blank items).toList = items ++ List.replicate (n - items.length) blank := by
  show items.take n ++ List.replicate (n - items.length) blank = _
  rw [List.take_of_length_le h]

/-- A record in an array is followed by the blank rest as by one more field. -/
theorem toList_padTo_flatten {blank : α} {fields : List (List α)} (h : fields.flatten.length ≤ n) :
    (padTo n blank fields.flatten).toList =
      (fields ++ [List.replicate (n - fields.flatten.length) blank]).flatten := by
  rw [toList_padTo h, List.flatten_append, List.flatten_singleton]

theorem padTo_take {blank : α} {k : Nat} (h : items.length ≤ k) (hk : k ≤ n) :
    padTo n blank ((padTo n blank items).toList.take k) = padTo n blank items := by
  have hfront : (padTo n blank items).toList.take k =
      items ++ List.replicate (k - items.length) blank := by
    rw [toList_padTo (Nat.le_trans h hk), List.take_append, List.take_of_length_le h,
      List.take_replicate, Nat.min_eq_left (by omega)]
  have hlength : (items ++ List.replicate (k - items.length) blank).length = k := by
    rw [List.length_append, List.length_replicate]
    omega
  apply Vector.toList_inj.mp
  rw [hfront, toList_padTo (by omega), toList_padTo (by omega), hlength, List.append_assoc,
    List.replicate_append_replicate]
  congr 2
  omega

theorem padTo_toList (v : Vector α n) (blank : α) : padTo n blank v.toList = v := by
  apply Vector.toList_inj.mp
  rw [toList_padTo (Nat.le_of_eq v.length_toList), v.length_toList, Nat.sub_self]
  exact List.append_nil _

end Lib
