import NumberPuzzles.Fixture.Reading
import NumberPuzzles.Fixture.Tree

/-!
# The bundled fixtures

One hundred numbers of fifty digits, two triangles, and a list of common words.
-/

namespace NumberPuzzles.Bundled

def textOfRows (rows : List String) : String := String.join (rows.map (· ++ "\n"))

def numberRows : List String := [
  "37107287533902102798797998220837590246510135740250",
  "46376937677490009712648124896970078050417018260538",
  "74324986199524741059474233309513058123726617309629",
  "91942213363574161572522430563301811072406154908250",
  "23067588207539346171171980310421047513778063246676",
  "89261670696623633820136378418383684178734361726757",
  "28112879812849979408065481931592621691275889832738",
  "44274228917432520321923589422876796487670272189318",
  "47451445736001306439091167216856844588711603153276",
  "70386486105843025439939619828917593665686757934951",
  "62176457141856560629502157223196586755079324193331",
  "64906352462741904929101432445813822663347944758178",
  "92575867718337217661963751590579239728245598838407",
  "58203565325359399008402633568948830189458628227828",
  "80181199384826282014278194139940567587151170094390",
  "35398664372827112653829987240784473053190104293586",
  "86515506006295864861532075273371959191420517255829",
  "71693888707715466499115593487603532921714970056938",
  "54370070576826684624621495650076471787294438377604",
  "53282654108756828443191190634694037855217779295145",
  "36123272525000296071075082563815656710885258350721",
  "45876576172410976447339110607218265236877223636045",
  "17423706905851860660448207621209813287860733969412",
  "81142660418086830619328460811191061556940512689692",
  "51934325451728388641918047049293215058642563049483",
  "62467221648435076201727918039944693004732956340691",
  "15732444386908125794514089057706229429197107928209",
  "55037687525678773091862540744969844508330393682126",
  "18336384825330154686196124348767681297534375946515",
  "80386287592878490201521685554828717201219257766954",
  "78182833757993103614740356856449095527097864797581",
  "16726320100436897842553539920931837441497806860984",
  "48403098129077791799088218795327364475675590848030",
  "87086987551392711854517078544161852424320693150332",
  "59959406895756536782107074926966537676326235447210",
  "69793950679652694742597709739166693763042633987085",
  "41052684708299085211399427365734116182760315001271",
  "65378607361501080857009149939512557028198746004375",
  "35829035317434717326932123578154982629742552737307",
  "94953759765105305946966067683156574377167401875275",
  "88902802571733229619176668713819931811048770190271",
  "25267680276078003013678680992525463401061632866526",
  "36270218540497705585629946580636237993140746255962",
  "24074486908231174977792365466257246923322810917141",
  "91430288197103288597806669760892938638285025333403",
  "34413065578016127815921815005561868836468420090470",
  "23053081172816430487623791969842487255036638784583",
  "11487696932154902810424020138335124462181441773470",
  "63783299490636259666498587618221225225512486764533",
  "67720186971698544312419572409913959008952310058822",
  "95548255300263520781532296796249481641953868218774",
  "76085327132285723110424803456124867697064507995236",
  "37774242535411291684276865538926205024910326572967",
  "23701913275725675285653248258265463092207058596522",
  "29798860272258331913126375147341994889534765745501",
  "18495701454879288984856827726077713721403798879715",
  "38298203783031473527721580348144513491373226651381",
  "34829543829199918180278916522431027392251122869539",
  "40957953066405232632538044100059654939159879593635",
  "29746152185502371307642255121183693803580388584903",
  "41698116222072977186158236678424689157993532961922",
  "62467957194401269043877107275048102390895523597457",
  "23189706772547915061505504953922979530901129967519",
  "86188088225875314529584099251203829009407770775672",
  "11306739708304724483816533873502340845647058077308",
  "82959174767140363198008187129011875491310547126581",
  "97623331044818386269515456334926366572897563400500",
  "42846280183517070527831839425882145521227251250327",
  "55121603546981200581762165212827652751691296897789",
  "32238195734329339946437501907836945765883352399886",
  "75506164965184775180738168837861091527357929701337",
  "62177842752192623401942399639168044983993173312731",
  "32924185707147349566916674687634660915035914677504",
  "99518671430235219628894890102423325116913619626622",
  "73267460800591547471830798392868535206946944540724",
  "76841822524674417161514036427982273348055556214818",
  "97142617910342598647204516893989422179826088076852",
  "87783646182799346313767754307809363333018982642090",
  "10848802521674670883215120185883543223812876952786",
  "71329612474782464538636993009049310363619763878039",
  "62184073572399794223406235393808339651327408011116",
  "66627891981488087797941876876144230030984490851411",
  "60661826293682836764744779239180335110989069790714",
  "85786944089552990653640447425576083659976645795096",
  "66024396409905389607120198219976047599490197230297",
  "64913982680032973156037120041377903785566085089252",
  "16730939319872750275468906903707539413042652315011",
  "94809377245048795150954100921645863754710598436791",
  "78639167021187492431995700641917969777599028300699",
  "15368713711936614952811305876380278410754449733078",
  "40789923115535562561142322423255033685442488917353",
  "44889911501440648020369068063960672322193204149535",
  "41503128880339536053299340368006977710650566631954",
  "81234880673210146739058568557934581403627822703280",
  "82616570773948327592232845941706525094512325230608",
  "22918802058777319719839450180888072429661980811197",
  "77158542502016545090413245809786882778948721859617",
  "72107838435069186155435662884062257473692284509516",
  "20849603980134001723930671666823555245252804609722",
  "53503534226472524250874054075591789781264330331690"]

def smallTriangleRows : List String := [
  "3",
  "7 4",
  "2 4 6",
  "8 5 9 3"]

def triangleRows : List String := [
  "75",
  "95 64",
  "17 47 82",
  "18 35 87 10",
  "20 04 82 47 65",
  "19 01 23 75 03 34",
  "88 02 77 73 07 63 67",
  "99 65 04 28 06 16 70 92",
  "41 41 26 56 83 40 80 70 33",
  "41 48 72 33 47 32 37 16 94 29",
  "53 71 44 65 25 43 91 52 97 51 14",
  "70 11 33 28 77 73 17 78 39 68 17 57",
  "91 71 52 38 17 14 91 43 58 50 27 29 48",
  "63 66 04 68 89 53 67 30 73 16 69 87 40 31",
  "04 62 98 27 23 09 70 98 73 93 38 53 60 04 23"]

/-- The words, in alphabetical order, with a blank between them. -/
def wordRows : List String := [
  "A ABILITY ABLE ABOUT ABOVE ABSENCE ABSOLUTELY ACADEMIC ACCEPT ACCESS ACCIDENT ACCOMPANY",
  "ACCORDING ACCOUNT ACHIEVE ACHIEVEMENT ACID ACQUIRE ACROSS ACT ACTION ACTIVE ACTIVITY ACTUAL",
  "ACTUALLY ADD ADDITION ADDITIONAL ADDRESS ADMINISTRATION ADMIT ADOPT ADULT ADVANCE ADVANTAGE",
  "ADVICE ADVISE AFFAIR AFFECT AFFORD AFRAID AFTER AFTERNOON AFTERWARDS AGAIN AGAINST AGE",
  "AGENCY AGENT AGO AGREE AGREEMENT AHEAD AID AIM AIR AIRCRAFT ALL ALLOW ALMOST ALONE ALONG",
  "ALREADY ALRIGHT ALSO ALTERNATIVE ALTHOUGH ALWAYS AMONG AMONGST AMOUNT AN ANALYSIS ANCIENT",
  "AND ANIMAL ANNOUNCE ANNUAL ANOTHER ANSWER ANY ANYBODY ANYONE ANYTHING ANYWAY APART APPARENT",
  "APPARENTLY APPEAL APPEAR APPEARANCE APPLICATION APPLY APPOINT APPOINTMENT APPROACH",
  "APPROPRIATE APPROVE AREA ARGUE ARGUMENT ARISE ARM ARMY AROUND ARRANGE ARRANGEMENT ARRIVE ART",
  "ARTICLE ARTIST AS ASK ASPECT ASSEMBLY ASSESS ASSESSMENT ASSET ASSOCIATE ASSOCIATION ASSUME",
  "ASSUMPTION AT ATMOSPHERE ATTACH ATTACK ATTEMPT ATTEND ATTENTION ATTITUDE ATTRACT ATTRACTIVE",
  "AUDIENCE AUTHOR AUTHORITY AVAILABLE AVERAGE AVOID AWARD AWARE AWAY AYE BABY BACK BACKGROUND",
  "BAD BAG BALANCE BALL BAND BANK BAR BASE BASIC BASIS BATTLE BE BEAR BEAT BEAUTIFUL BECAUSE",
  "BECOME BED BEDROOM BEFORE BEGIN BEGINNING BEHAVIOUR BEHIND BELIEF BELIEVE BELONG BELOW",
  "BENEATH BENEFIT BESIDE BEST BETTER BETWEEN BEYOND BIG BILL BIND BIRD BIRTH BIT BLACK BLOCK",
  "BLOOD BLOODY BLOW BLUE BOARD BOAT BODY BONE BOOK BORDER BOTH BOTTLE BOTTOM BOX BOY BRAIN",
  "BRANCH BREAK BREATH BRIDGE BRIEF BRIGHT BRING BROAD BROTHER BUDGET BUILD BUILDING BURN BUS",
  "BUSINESS BUSY BUT BUY BY CABINET CALL CAMPAIGN CAN CANDIDATE CAPABLE CAPACITY CAPITAL CAR",
  "CARD CARE CAREER CAREFUL CAREFULLY CARRY CASE CASH CAT CATCH CATEGORY CAUSE CELL CENTRAL",
  "CENTRE CENTURY CERTAIN CERTAINLY CHAIN CHAIR CHAIRMAN CHALLENGE CHANCE CHANGE CHANNEL",
  "CHAPTER CHARACTER CHARACTERISTIC CHARGE CHEAP CHECK CHEMICAL CHIEF CHILD CHOICE CHOOSE",
  "CHURCH CIRCLE CIRCUMSTANCE CITIZEN CITY CIVIL CLAIM CLASS CLEAN CLEAR CLEARLY CLIENT CLIMB",
  "CLOSE CLOSELY CLOTHES CLUB COAL CODE COFFEE COLD COLLEAGUE COLLECT COLLECTION COLLEGE COLOUR",
  "COMBINATION COMBINE COME COMMENT COMMERCIAL COMMISSION COMMIT COMMITMENT COMMITTEE COMMON",
  "COMMUNICATION COMMUNITY COMPANY COMPARE COMPARISON COMPETITION COMPLETE COMPLETELY COMPLEX",
  "COMPONENT COMPUTER CONCENTRATE CONCENTRATION CONCEPT CONCERN CONCERNED CONCLUDE CONCLUSION",
  "CONDITION CONDUCT CONFERENCE CONFIDENCE CONFIRM CONFLICT CONGRESS CONNECT CONNECTION",
  "CONSEQUENCE CONSERVATIVE CONSIDER CONSIDERABLE CONSIDERATION CONSIST CONSTANT CONSTRUCTION",
  "CONSUMER CONTACT CONTAIN CONTENT CONTEXT CONTINUE CONTRACT CONTRAST CONTRIBUTE CONTRIBUTION",
  "CONTROL CONVENTION CONVERSATION COPY CORNER CORPORATE CORRECT COULD COUNCIL COUNT COUNTRY",
  "COUNTY COUPLE COURSE COURT COVER CREATE CREATION CREDIT CRIME CRIMINAL CRISIS CRITERION",
  "CRITICAL CRITICISM CROSS CROWD CRY CULTURAL CULTURE CUP CURRENT CURRENTLY CURRICULUM",
  "CUSTOMER CUT DAMAGE DANGER DANGEROUS DARK DATA DATE DAUGHTER DAY DEAD DEAL DEATH DEBATE DEBT",
  "DECADE DECIDE DECISION DECLARE DEEP DEFENCE DEFENDANT DEFINE DEFINITION DEGREE DELIVER",
  "DEMAND DEMOCRATIC DEMONSTRATE DENY DEPARTMENT DEPEND DEPUTY DERIVE DESCRIBE DESCRIPTION",
  "DESIGN DESIRE DESK DESPITE DESTROY DETAIL DETAILED DETERMINE DEVELOP DEVELOPMENT DEVICE DIE",
  "DIFFERENCE DIFFERENT DIFFICULT DIFFICULTY DINNER DIRECT DIRECTION DIRECTLY DIRECTOR",
  "DISAPPEAR DISCIPLINE DISCOVER DISCUSS DISCUSSION DISEASE DISPLAY DISTANCE DISTINCTION",
  "DISTRIBUTION DISTRICT DIVIDE DIVISION DO DOCTOR DOCUMENT DOG DOMESTIC DOOR DOUBLE DOUBT DOWN",
  "DRAW DRAWING DREAM DRESS DRINK DRIVE DRIVER DROP DRUG DRY DUE DURING DUTY EACH EAR EARLY",
  "EARN EARTH EASILY EAST EASY EAT ECONOMIC ECONOMY EDGE EDITOR EDUCATION EDUCATIONAL EFFECT",
  "EFFECTIVE EFFECTIVELY EFFORT EGG EITHER ELDERLY ELECTION ELEMENT ELSE ELSEWHERE EMERGE",
  "EMPHASIS EMPLOY EMPLOYEE EMPLOYER EMPLOYMENT EMPTY ENABLE ENCOURAGE END ENEMY ENERGY ENGINE",
  "ENGINEERING ENJOY ENOUGH ENSURE ENTER ENTERPRISE ENTIRE ENTIRELY ENTITLE ENTRY ENVIRONMENT",
  "ENVIRONMENTAL EQUAL EQUALLY EQUIPMENT ERROR ESCAPE ESPECIALLY ESSENTIAL ESTABLISH",
  "ESTABLISHMENT ESTATE ESTIMATE EVEN EVENING EVENT EVENTUALLY EVER EVERY EVERYBODY EVERYONE",
  "EVERYTHING EVIDENCE EXACTLY EXAMINATION EXAMINE EXAMPLE EXCELLENT EXCEPT EXCHANGE EXECUTIVE",
  "EXERCISE EXHIBITION EXIST EXISTENCE EXISTING EXPECT EXPECTATION EXPENDITURE EXPENSE",
  "EXPENSIVE EXPERIENCE EXPERIMENT EXPERT EXPLAIN EXPLANATION EXPLORE EXPRESS EXPRESSION EXTEND",
  "EXTENT EXTERNAL EXTRA EXTREMELY EYE FACE FACILITY FACT FACTOR FACTORY FAIL FAILURE FAIR",
  "FAIRLY FAITH FALL FAMILIAR FAMILY FAMOUS FAR FARM FARMER FASHION FAST FATHER FAVOUR FEAR",
  "FEATURE FEE FEEL FEELING FEMALE FEW FIELD FIGHT FIGURE FILE FILL FILM FINAL FINALLY FINANCE",
  "FINANCIAL FIND FINDING FINE FINGER FINISH FIRE FIRM FIRST FISH FIT FIX FLAT FLIGHT FLOOR",
  "FLOW FLOWER FLY FOCUS FOLLOW FOLLOWING FOOD FOOT FOOTBALL FOR FORCE FOREIGN FOREST FORGET",
  "FORM FORMAL FORMER FORWARD FOUNDATION FREE FREEDOM FREQUENTLY FRESH FRIEND FROM FRONT FRUIT",
  "FUEL FULL FULLY FUNCTION FUND FUNNY FURTHER FUTURE GAIN GAME GARDEN GAS GATE GATHER GENERAL",
  "GENERALLY GENERATE GENERATION GENTLEMAN GET GIRL GIVE GLASS GO GOAL GOD GOLD GOOD GOVERNMENT",
  "GRANT GREAT GREEN GREY GROUND GROUP GROW GROWING GROWTH GUEST GUIDE GUN HAIR HALF HALL HAND",
  "HANDLE HANG HAPPEN HAPPY HARD HARDLY HATE HAVE HE HEAD HEALTH HEAR HEART HEAT HEAVY HELL",
  "HELP HENCE HER HERE HERSELF HIDE HIGH HIGHLY HILL HIM HIMSELF HIS HISTORICAL HISTORY HIT",
  "HOLD HOLE HOLIDAY HOME HOPE HORSE HOSPITAL HOT HOTEL HOUR HOUSE HOUSEHOLD HOUSING HOW",
  "HOWEVER HUGE HUMAN HURT HUSBAND IDEA IDENTIFY IF IGNORE ILLUSTRATE IMAGE IMAGINE IMMEDIATE",
  "IMMEDIATELY IMPACT IMPLICATION IMPLY IMPORTANCE IMPORTANT IMPOSE IMPOSSIBLE IMPRESSION",
  "IMPROVE IMPROVEMENT IN INCIDENT INCLUDE INCLUDING INCOME INCREASE INCREASED INCREASINGLY",
  "INDEED INDEPENDENT INDEX INDICATE INDIVIDUAL INDUSTRIAL INDUSTRY INFLUENCE INFORM",
  "INFORMATION INITIAL INITIATIVE INJURY INSIDE INSIST INSTANCE INSTEAD INSTITUTE INSTITUTION",
  "INSTRUCTION INSTRUMENT INSURANCE INTEND INTENTION INTEREST INTERESTED INTERESTING INTERNAL",
  "INTERNATIONAL INTERPRETATION INTERVIEW INTO INTRODUCE INTRODUCTION INVESTIGATE INVESTIGATION",
  "INVESTMENT INVITE INVOLVE IRON IS ISLAND ISSUE IT ITEM ITS ITSELF JOB JOIN JOINT JOURNEY",
  "JUDGE JUMP JUST JUSTICE KEEP KEY KID KILL KIND KING KITCHEN KNEE KNOW KNOWLEDGE LABOUR LACK",
  "LADY LAND LANGUAGE LARGE LARGELY LAST LATE LATER LATTER LAUGH LAUNCH LAW LAWYER LAY LEAD",
  "LEADER LEADERSHIP LEADING LEAF LEAGUE LEAN LEARN LEAST LEAVE LEFT LEG LEGAL LEGISLATION",
  "LENGTH LESS LET LETTER LEVEL LIABILITY LIBERAL LIBRARY LIE LIFE LIFT LIGHT LIKE LIKELY LIMIT",
  "LIMITED LINE LINK LIP LIST LISTEN LITERATURE LITTLE LIVE LIVING LOAN LOCAL LOCATION LONG",
  "LOOK LORD LOSE LOSS LOT LOVE LOVELY LOW LUNCH MACHINE MAGAZINE MAIN MAINLY MAINTAIN MAJOR",
  "MAJORITY MAKE MALE MAN MANAGE MANAGEMENT MANAGER MANNER MANY MAP MARK MARKET MARRIAGE",
  "MARRIED MARRY MASS MASTER MATCH MATERIAL MATTER MAY MAYBE ME MEAL MEAN MEANING MEANS",
  "MEANWHILE MEASURE MECHANISM MEDIA MEDICAL MEET MEETING MEMBER MEMBERSHIP MEMORY MENTAL",
  "MENTION MERELY MESSAGE METAL METHOD MIDDLE MIGHT MILE MILITARY MILK MIND MINE MINISTER",
  "MINISTRY MINUTE MISS MISTAKE MODEL MODERN MODULE MOMENT MONEY MONTH MORE MORNING MOST MOTHER",
  "MOTION MOTOR MOUNTAIN MOUTH MOVE MOVEMENT MUCH MURDER MUSEUM MUSIC MUST MY MYSELF NAME",
  "NARROW NATION NATIONAL NATURAL NATURE NEAR NEARLY NECESSARILY NECESSARY NECK NEED",
  "NEGOTIATION NEIGHBOUR NEITHER NETWORK NEVER NEVERTHELESS NEW NEWS NEWSPAPER NEXT NICE NIGHT",
  "NO NOBODY NOD NOISE NONE NOR NORMAL NORMALLY NORTH NORTHERN NOSE NOT NOTE NOTHING NOTICE",
  "NOTION NOW NUCLEAR NUMBER NURSE OBJECT OBJECTIVE OBSERVATION OBSERVE OBTAIN OBVIOUS",
  "OBVIOUSLY OCCASION OCCUR ODD OF OFF OFFENCE OFFER OFFICE OFFICER OFFICIAL OFTEN OIL OKAY OLD",
  "ON ONCE ONE ONLY ONTO OPEN OPERATE OPERATION OPINION OPPORTUNITY OPPOSITION OPTION OR ORDER",
  "ORDINARY ORGANISATION ORGANISE ORGANIZATION ORIGIN ORIGINAL OTHER OTHERWISE OUGHT OUR",
  "OURSELVES OUT OUTCOME OUTPUT OUTSIDE OVER OVERALL OWN OWNER PACKAGE PAGE PAIN PAINT PAINTING",
  "PAIR PANEL PAPER PARENT PARK PARLIAMENT PART PARTICULAR PARTICULARLY PARTLY PARTNER PARTY",
  "PASS PASSAGE PAST PATH PATIENT PATTERN PAY PAYMENT PEACE PENSION PEOPLE PER PERCENT PERFECT",
  "PERFORM PERFORMANCE PERHAPS PERIOD PERMANENT PERSON PERSONAL PERSUADE PHASE PHONE PHOTOGRAPH",
  "PHYSICAL PICK PICTURE PIECE PLACE PLAN PLANNING PLANT PLASTIC PLATE PLAY PLAYER PLEASE",
  "PLEASURE PLENTY PLUS POCKET POINT POLICE POLICY POLITICAL POLITICS POOL POOR POPULAR",
  "POPULATION POSITION POSITIVE POSSIBILITY POSSIBLE POSSIBLY POST POTENTIAL POUND POWER",
  "POWERFUL PRACTICAL PRACTICE PREFER PREPARE PRESENCE PRESENT PRESIDENT PRESS PRESSURE PRETTY",
  "PREVENT PREVIOUS PREVIOUSLY PRICE PRIMARY PRIME PRINCIPLE PRIORITY PRISON PRISONER PRIVATE",
  "PROBABLY PROBLEM PROCEDURE PROCESS PRODUCE PRODUCT PRODUCTION PROFESSIONAL PROFIT PROGRAM",
  "PROGRAMME PROGRESS PROJECT PROMISE PROMOTE PROPER PROPERLY PROPERTY PROPORTION PROPOSE",
  "PROPOSAL PROSPECT PROTECT PROTECTION PROVE PROVIDE PROVIDED PROVISION PUB PUBLIC PUBLICATION",
  "PUBLISH PULL PUPIL PURPOSE PUSH PUT QUALITY QUARTER QUESTION QUICK QUICKLY QUIET QUITE RACE",
  "RADIO RAILWAY RAIN RAISE RANGE RAPIDLY RARE RATE RATHER REACH REACTION READ READER READING",
  "READY REAL REALISE REALITY REALIZE REALLY REASON REASONABLE RECALL RECEIVE RECENT RECENTLY",
  "RECOGNISE RECOGNITION RECOGNIZE RECOMMEND RECORD RECOVER RED REDUCE REDUCTION REFER",
  "REFERENCE REFLECT REFORM REFUSE REGARD REGION REGIONAL REGULAR REGULATION REJECT RELATE",
  "RELATION RELATIONSHIP RELATIVE RELATIVELY RELEASE RELEVANT RELIEF RELIGION RELIGIOUS RELY",
  "REMAIN REMEMBER REMIND REMOVE REPEAT REPLACE REPLY REPORT REPRESENT REPRESENTATION",
  "REPRESENTATIVE REQUEST REQUIRE REQUIREMENT RESEARCH RESOURCE RESPECT RESPOND RESPONSE",
  "RESPONSIBILITY RESPONSIBLE REST RESTAURANT RESULT RETAIN RETURN REVEAL REVENUE REVIEW",
  "REVOLUTION RICH RIDE RIGHT RING RISE RISK RIVER ROAD ROCK ROLE ROLL ROOF ROOM ROUND ROUTE",
  "ROW ROYAL RULE RUN RURAL SAFE SAFETY SALE SAME SAMPLE SATISFY SAVE SAY SCALE SCENE SCHEME",
  "SCHOOL SCIENCE SCIENTIFIC SCIENTIST SCORE SCREEN SEA SEARCH SEASON SEAT SECOND SECONDARY",
  "SECRETARY SECTION SECTOR SECURE SECURITY SEE SEEK SEEM SELECT SELECTION SELL SEND SENIOR",
  "SENSE SENTENCE SEPARATE SEQUENCE SERIES SERIOUS SERIOUSLY SERVANT SERVE SERVICE SESSION SET",
  "SETTLE SETTLEMENT SEVERAL SEVERE SEX SEXUAL SHAKE SHALL SHAPE SHARE SHE SHEET SHIP SHOE",
  "SHOOT SHOP SHORT SHOT SHOULD SHOULDER SHOUT SHOW SHUT SIDE SIGHT SIGN SIGNAL SIGNIFICANCE",
  "SIGNIFICANT SILENCE SIMILAR SIMPLE SIMPLY SINCE SING SINGLE SIR SISTER SIT SITE SITUATION",
  "SIZE SKILL SKIN SKY SLEEP SLIGHTLY SLIP SLOW SLOWLY SMALL SMILE SO SOCIAL SOCIETY SOFT",
  "SOFTWARE SOIL SOLDIER SOLICITOR SOLUTION SOME SOMEBODY SOMEONE SOMETHING SOMETIMES SOMEWHAT",
  "SOMEWHERE SON SONG SOON SORRY SORT SOUND SOURCE SOUTH SOUTHERN SPACE SPEAK SPEAKER SPECIAL",
  "SPECIES SPECIFIC SPEECH SPEED SPEND SPIRIT SPORT SPOT SPREAD SPRING STAFF STAGE STAND",
  "STANDARD STAR START STATE STATEMENT STATION STATUS STAY STEAL STEP STICK STILL STOCK STONE",
  "STOP STORE STORY STRAIGHT STRANGE STRATEGY STREET STRENGTH STRIKE STRONG STRONGLY STRUCTURE",
  "STUDENT STUDIO STUDY STUFF STYLE SUBJECT SUBSTANTIAL SUCCEED SUCCESS SUCCESSFUL SUCH",
  "SUDDENLY SUFFER SUFFICIENT SUGGEST SUGGESTION SUITABLE SUM SUMMER SUN SUPPLY SUPPORT SUPPOSE",
  "SURE SURELY SURFACE SURPRISE SURROUND SURVEY SURVIVE SWITCH SYSTEM TABLE TAKE TALK TALL TAPE",
  "TARGET TASK TAX TEA TEACH TEACHER TEACHING TEAM TEAR TECHNICAL TECHNIQUE TECHNOLOGY",
  "TELEPHONE TELEVISION TELL TEMPERATURE TEND TERM TERMS TERRIBLE TEST TEXT THAN THANK THANKS",
  "THAT THE THEATRE THEIR THEM THEME THEMSELVES THEN THEORY THERE THEREFORE THESE THEY THIN",
  "THING THINK THIS THOSE THOUGH THOUGHT THREAT THREATEN THROUGH THROUGHOUT THROW THUS TICKET",
  "TIME TINY TITLE TO TODAY TOGETHER TOMORROW TONE TONIGHT TOO TOOL TOOTH TOP TOTAL TOTALLY",
  "TOUCH TOUR TOWARDS TOWN TRACK TRADE TRADITION TRADITIONAL TRAFFIC TRAIN TRAINING TRANSFER",
  "TRANSPORT TRAVEL TREAT TREATMENT TREATY TREE TREND TRIAL TRIP TROOP TROUBLE TRUE TRUST TRUTH",
  "TRY TURN TWICE TYPE TYPICAL UNABLE UNDER UNDERSTAND UNDERSTANDING UNDERTAKE UNEMPLOYMENT",
  "UNFORTUNATELY UNION UNIT UNITED UNIVERSITY UNLESS UNLIKELY UNTIL UP UPON UPPER URBAN US USE",
  "USED USEFUL USER USUAL USUALLY VALUE VARIATION VARIETY VARIOUS VARY VAST VEHICLE VERSION",
  "VERY VIA VICTIM VICTORY VIDEO VIEW VILLAGE VIOLENCE VISION VISIT VISITOR VITAL VOICE VOLUME",
  "VOTE WAGE WAIT WALK WALL WANT WAR WARM WARN WASH WATCH WATER WAVE WAY WE WEAK WEAPON WEAR",
  "WEATHER WEEK WEEKEND WEIGHT WELFARE WELL WEST WESTERN WHAT WHATEVER WHEN WHERE WHEREAS",
  "WHETHER WHICH WHILE WHILST WHITE WHO WHOLE WHOM WHOSE WHY WIDE WIDELY WIFE WILD WILL WIN",
  "WIND WINDOW WINE WING WINNER WINTER WISH WITH WITHDRAW WITHIN WITHOUT WOMAN WONDER WONDERFUL",
  "WOOD WORD WORK WORKER WORKING WORKS WORLD WORRY WORTH WOULD WRITE WRITER WRITING WRONG YARD",
  "YEAH YEAR YES YESTERDAY YET YOU YOUNG YOUR YOURSELF YOUTH"]

def words : String :=
  ",".intercalate (wordRows.flatMap fun row =>
    (Text.cells row.toList).map fun letters => "\"" ++ String.ofList letters ++ "\"")

def tree : Tree :=
  Tree.ofList [
    ("data/numbers.txt", .file (textOfRows numberRows).toUTF8),
    ("data/small_triangle.txt", .file (textOfRows smallTriangleRows).toUTF8),
    ("data/triangle.txt", .file (textOfRows triangleRows).toUTF8),
    ("data/words.txt", .file words.toUTF8)]

def fixtures : Fixtures := ⟨"data", tree.read⟩

end NumberPuzzles.Bundled
