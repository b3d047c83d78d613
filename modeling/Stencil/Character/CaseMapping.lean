/-
**Characters with another case.**

Tables of the characters that the full Unicode case mappings change.  A run `(a, b, s)` holds the
code points `a`, `a + s`, `a + 2 s` and so on up to `b`: where capitals and small letters alternate
the step is two.

Main definitions:

* `Stencil.Character.hasLower`, `Stencil.Character.hasUpper` — whether mapping a character to lower
  (upper) case changes it.
-/

import Stencil.Character.Runs

set_option autoImplicit false

namespace Stencil.Character

/-- The code points changed by the mapping to lower case. -/
def loweredRuns : List (Nat × Nat × Nat) :=
  [(65, 90, 1), (192, 214, 1), (216, 222, 1), (256, 310, 2), (313, 327, 2), (330, 374, 2),
    (376, 377, 1), (379, 381, 2), (385, 386, 1), (388, 390, 2), (391, 393, 2), (394, 395, 1),
    (398, 401, 1), (403, 404, 1), (406, 408, 1), (412, 413, 1), (415, 416, 1), (418, 420, 2),
    (422, 423, 1), (425, 425, 1), (428, 430, 2), (431, 433, 2), (434, 435, 1), (437, 439, 2),
    (440, 440, 1), (444, 444, 1), (452, 453, 1), (455, 456, 1), (458, 459, 1), (461, 475, 2),
    (478, 494, 2), (497, 498, 1), (500, 502, 2), (503, 504, 1), (506, 562, 2), (570, 571, 1),
    (573, 574, 1), (577, 579, 2), (580, 582, 1), (584, 590, 2), (880, 882, 2), (886, 886, 1),
    (895, 895, 1), (902, 904, 2), (905, 906, 1), (908, 910, 2), (911, 913, 2), (914, 929, 1),
    (931, 939, 1), (975, 975, 1), (984, 1006, 2), (1012, 1012, 1), (1015, 1017, 2), (1018, 1018, 1),
    (1021, 1071, 1), (1120, 1152, 2), (1162, 1214, 2), (1216, 1217, 1), (1219, 1229, 2),
    (1232, 1326, 2), (1329, 1366, 1), (4256, 4293, 1), (4295, 4295, 1), (4301, 4301, 1),
    (5024, 5109, 1), (7305, 7305, 1), (7312, 7354, 1), (7357, 7359, 1), (7680, 7828, 2),
    (7838, 7934, 2), (7944, 7951, 1), (7960, 7965, 1), (7976, 7983, 1), (7992, 7999, 1),
    (8008, 8013, 1), (8025, 8031, 2), (8040, 8047, 1), (8072, 8079, 1), (8088, 8095, 1),
    (8104, 8111, 1), (8120, 8124, 1), (8136, 8140, 1), (8152, 8155, 1), (8168, 8172, 1),
    (8184, 8188, 1), (8486, 8486, 1), (8490, 8491, 1), (8498, 8498, 1), (8544, 8559, 1),
    (8579, 8579, 1), (9398, 9423, 1), (11264, 11311, 1), (11360, 11362, 2), (11363, 11364, 1),
    (11367, 11371, 2), (11373, 11376, 1), (11378, 11378, 1), (11381, 11381, 1), (11390, 11392, 1),
    (11394, 11490, 2), (11499, 11501, 2), (11506, 11506, 1), (42560, 42604, 2), (42624, 42650, 2),
    (42786, 42798, 2), (42802, 42862, 2), (42873, 42875, 2), (42877, 42878, 1), (42880, 42886, 2),
    (42891, 42893, 2), (42896, 42898, 2), (42902, 42920, 2), (42922, 42926, 1), (42928, 42932, 1),
    (42934, 42946, 2), (42948, 42951, 1), (42953, 42955, 2), (42956, 42972, 2), (42997, 42997, 1),
    (65313, 65338, 1), (66560, 66599, 1), (66736, 66771, 1), (66928, 66938, 1), (66940, 66954, 1),
    (66956, 66962, 1), (66964, 66965, 1), (68736, 68786, 1), (68944, 68965, 1), (71840, 71871, 1),
    (93760, 93791, 1), (93856, 93880, 1), (125184, 125217, 1)]

/-- The code points changed by the mapping to upper case. -/
def upperedRuns : List (Nat × Nat × Nat) :=
  [(97, 122, 1), (181, 181, 1), (223, 246, 1), (248, 255, 1), (257, 311, 2), (314, 326, 2),
    (328, 329, 1), (331, 375, 2), (378, 380, 2), (382, 384, 1), (387, 389, 2), (392, 392, 1),
    (396, 396, 1), (402, 402, 1), (405, 405, 1), (409, 411, 1), (414, 414, 1), (417, 421, 2),
    (424, 424, 1), (429, 429, 1), (432, 432, 1), (436, 438, 2), (441, 441, 1), (445, 447, 2),
    (453, 454, 1), (456, 457, 1), (459, 460, 1), (462, 474, 2), (476, 477, 1), (479, 493, 2),
    (495, 496, 1), (498, 499, 1), (501, 501, 1), (505, 543, 2), (547, 563, 2), (572, 572, 1),
    (575, 576, 1), (578, 578, 1), (583, 589, 2), (591, 596, 1), (598, 599, 1), (601, 603, 2),
    (604, 604, 1), (608, 609, 1), (611, 614, 1), (616, 620, 1), (623, 625, 2), (626, 626, 1),
    (629, 629, 1), (637, 637, 1), (640, 642, 2), (643, 643, 1), (647, 652, 1), (658, 658, 1),
    (669, 670, 1), (837, 837, 1), (881, 883, 2), (887, 887, 1), (891, 893, 1), (912, 912, 1),
    (940, 974, 1), (976, 977, 1), (981, 983, 1), (985, 1005, 2), (1007, 1011, 1), (1013, 1013, 1),
    (1016, 1016, 1), (1019, 1019, 1), (1072, 1119, 1), (1121, 1153, 2), (1163, 1215, 2),
    (1218, 1228, 2), (1230, 1231, 1), (1233, 1327, 2), (1377, 1415, 1), (4304, 4346, 1),
    (4349, 4351, 1), (5112, 5117, 1), (7296, 7304, 1), (7306, 7306, 1), (7545, 7545, 1),
    (7549, 7549, 1), (7566, 7566, 1), (7681, 7827, 2), (7829, 7835, 1), (7841, 7933, 2),
    (7935, 7943, 1), (7952, 7957, 1), (7968, 7975, 1), (7984, 7991, 1), (8000, 8005, 1),
    (8016, 8023, 1), (8032, 8039, 1), (8048, 8061, 1), (8064, 8116, 1), (8118, 8119, 1),
    (8124, 8126, 2), (8130, 8132, 1), (8134, 8135, 1), (8140, 8140, 1), (8144, 8147, 1),
    (8150, 8151, 1), (8160, 8167, 1), (8178, 8180, 1), (8182, 8183, 1), (8188, 8188, 1),
    (8526, 8526, 1), (8560, 8575, 1), (8580, 8580, 1), (9424, 9449, 1), (11312, 11359, 1),
    (11361, 11361, 1), (11365, 11366, 1), (11368, 11372, 2), (11379, 11379, 1), (11382, 11382, 1),
    (11393, 11491, 2), (11500, 11502, 2), (11507, 11507, 1), (11520, 11557, 1), (11559, 11559, 1),
    (11565, 11565, 1), (42561, 42605, 2), (42625, 42651, 2), (42787, 42799, 2), (42803, 42863, 2),
    (42874, 42876, 2), (42879, 42887, 2), (42892, 42892, 1), (42897, 42899, 2), (42900, 42900, 1),
    (42903, 42921, 2), (42933, 42947, 2), (42952, 42954, 2), (42957, 42971, 2), (42998, 42998, 1),
    (43859, 43859, 1), (43888, 43967, 1), (64256, 64262, 1), (64275, 64279, 1), (65345, 65370, 1),
    (66600, 66639, 1), (66776, 66811, 1), (66967, 66977, 1), (66979, 66993, 1), (66995, 67001, 1),
    (67003, 67004, 1), (68800, 68850, 1), (68976, 68997, 1), (71872, 71903, 1), (93792, 93823, 1),
    (93883, 93907, 1), (125218, 125251, 1)]

/-- Whether mapping a character to lower case changes it. -/
def hasLower (c : Char) : Bool := inSteppedRuns c.toNat loweredRuns

/-- Whether mapping a character to upper case changes it. -/
def hasUpper (c : Char) : Bool := inSteppedRuns c.toNat upperedRuns

end Stencil.Character
