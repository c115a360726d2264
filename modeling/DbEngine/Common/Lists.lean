import Mathlib

/-!
# Lists

The facts about lists and options that are used all over the development, by their short
names.
-/

namespace DbEngine

export List (all_cons all_eq_true any_eq_false any_eq_true append_assoc append_cons append_inj'
  append_nil argmax_eq_none argmax_mem concat_eq_append cons_append cons_ne_nil countP_cons
  drop_drop drop_eq_getElem_cons drop_eq_nil_of_le drop_left eq_nil_or_concat erase_cons_head
  exists_cons_of_ne_nil filterMap_append filter_append filter_congr filter_cons filter_cons_of_neg
  filter_eq_nil_iff filter_eq_self filter_filter filter_sublist find?_cons find?_eq_none find?_some
  findSome?_cons findSome?_map flatten_append flatten_cons foldl_append foldl_cons forall_mem_cons
  forall_mem_singleton getD_eq_getElem?_getD getElem?_append_left getElem?_eq_getElem
  getElem?_eq_some_iff getElem?_map getElem?_of_mem getElem_mem inj_on_of_nodup_map le_of_mem_argmax
  length_append length_cons length_drop length_eq_zero_iff length_map length_nil length_pos_iff
  length_singleton length_take map_append map_concat map_congr_left map_cons map_flatten map_id
  map_map map_nil map_take mem_append mem_append_left mem_append_right mem_cons mem_cons_of_mem
  mem_cons_self mem_filter mem_filterMap mem_flatten mem_map mem_map_of_mem mem_of_find?_eq_some
  mem_of_getElem? mem_range mem_singleton mem_singleton_self ne_nil_of_length_pos nil_append
  nodup_append nodup_cons nodup_nil not_mem_nil pairwise_append pairwise_cons pairwise_map
  pairwise_singleton range range_succ replicate reverseRecOn take_append_drop take_left')

export Option (any_some bind_eq_bind bind_eq_some_iff bind_none bind_some getD_some
  isSome_iff_exists map_eq_some_iff map_some mem_def mem_some ne_none_iff_exists' or_none some.injEq
  some_ne_none some_or toList_some)

end DbEngine
